import TableStore.Proofs.FileSystem

namespace TableStore.FileSystem

variable {files files' : FileSystem} {root path : Path} {home location : Location} {name : String}

def SameDirectories (files files' : FileSystem) : Prop :=
  ∀ location, files'.isDirectory location = files.isDirectory location

namespace SameDirectories

theorem refl (files : FileSystem) : SameDirectories files files := fun _ ↦ rfl

theorem symm (h : SameDirectories files files') : SameDirectories files' files :=
  fun location ↦ (h location).symm

theorem trans {files'' : FileSystem} (h : SameDirectories files files')
    (h' : SameDirectories files' files'') : SameDirectories files files'' :=
  fun location ↦ (h' location).trans (h location)

theorem of_lookup_eq {moved : Location} (hbefore : files.isDirectory moved = false)
    (hafter : files'.isDirectory moved = false)
    (hsame : ∀ location, location ≠ moved → files'.lookup location = files.lookup location) :
    SameDirectories files files' := by
  intro location
  by_cases h : location = moved
  · rw [h, hbefore, hafter]
  · rw [isDirectory, isDirectory, hsame location h]

theorem leads (h : SameDirectories files files') (hleads : Leads files root home) :
    Leads files' root home :=
  hleads.of_directories fun location hdirectory ↦ (h location).trans hdirectory

theorem target (h : SameDirectories files files') (htarget : files.target path = .ok location) :
    files'.target path = .ok location := by
  obtain ⟨names, hnames, htarget⟩ := bind_eq_ok.mp htarget
  obtain ⟨⟨directory, name⟩, hlast, htarget⟩ := bind_eq_ok.mp htarget
  obtain ⟨found, hwalk, hlast⟩ := bind_eq_ok.mp hlast
  obtain ⟨⟨⟩, hdirectory, hlast⟩ := bind_eq_ok.mp hlast
  obtain ⟨rfl, rfl⟩ := Prod.mk.inj (Except.ok.inj hlast)
  have hkept : ∀ location, files.isDirectory location = true →
      files'.isDirectory location = true := fun location hdirectory ↦ (h location).trans hdirectory
  have hfound := ensure_eq_ok.mp hdirectory
  rw [FileSystem.target, hnames, ok_bind, walkToLast, walk_of_directories hkept hfound hwalk, ok_bind,
    hkept found hfound]
  simp only [ensure_true, ok_bind, pure_eq_ok, h (found ++ [names.getLastD "."])] at htarget ⊢
  exact htarget

end SameDirectories

theorem isOutset_of_not_directory (h : files.isDirectory location = false) :
    isOutset location = false := by
  rw [Bool.eq_false_iff]
  intro houtset
  simp [isDirectory, lookup, houtset] at h

theorem isDirectory_put_text (h : files.isDirectory location = false) (text : String) :
    (files.put location (.text text)).isDirectory location = false := by
  simp [isDirectory, lookup, isOutset_of_not_directory h, put]

theorem sameDirectories_write {text : String} (h : files.write path (.text text) = .ok files') :
    SameDirectories files files' := by
  obtain ⟨location, htarget, hput⟩ := bind_eq_ok.mp h
  obtain rfl := Except.ok.inj hput
  obtain ⟨names, -, htarget⟩ := bind_eq_ok.mp htarget
  obtain ⟨⟨directory, name⟩, -, htarget⟩ := bind_eq_ok.mp htarget
  obtain ⟨⟨⟩, -, htarget⟩ := bind_eq_ok.mp htarget
  obtain ⟨⟨⟩, -, htarget⟩ := bind_eq_ok.mp htarget
  obtain ⟨⟨⟩, hfree, htarget⟩ := bind_eq_ok.mp htarget
  obtain rfl := Except.ok.inj htarget
  have hfile : files.isDirectory (directory ++ [name]) = false := by
    simpa using ensure_eq_ok.mp hfree
  exact .of_lookup_eq hfile (isDirectory_put_text hfile text) fun location hne ↦
    lookup_put location _ hne

theorem isDirectory_remove (h : files.isDirectory location = false) :
    (files.remove location).isDirectory location = false := by
  rw [isDirectory, lookup, isOutset_of_not_directory h, remove]
  simp only [Bool.false_eq_true, if_false, lookup_filter_ne, if_pos, reduceCtorEq, decide_false]

theorem sameDirectories_removeFile (h : files.removeFile path = .ok files') :
    SameDirectories files files' := by
  obtain ⟨⟨location, entry⟩, hfind, h⟩ := bind_eq_ok.mp h
  obtain ⟨⟨⟩, hentry, h⟩ := bind_eq_ok.mp h
  obtain rfl := Except.ok.inj h
  obtain ⟨names, -, hfind⟩ := bind_eq_ok.mp hfind
  obtain ⟨found, -, hfind⟩ := bind_eq_ok.mp hfind
  have hfile : files.isDirectory location = false := by
    cases hlookup : files.lookup found with
    | none => simp [hlookup] at hfind
    | some other =>
      rw [hlookup] at hfind
      obtain ⟨⟨⟩, -, hfind⟩ := bind_eq_ok.mp hfind
      obtain ⟨rfl, rfl⟩ := Prod.mk.inj (Except.ok.inj hfind)
      cases other with
      | directory => cases ensure_eq_ok.mp hentry
      | text s => simp [isDirectory, hlookup]
      | binary bytes => simp [isDirectory, hlookup]
  exact .of_lookup_eq hfile (isDirectory_remove hfile) fun location hne ↦ lookup_remove location hne

theorem exists_target_of_isFile (hname : IsFileName name)
    (h : files.isFile (root.join name) = true) :
    ∃ location, files.target (root.join name) = .ok location := by
  obtain ⟨home, hleads⟩ := exists_leads_of_isFile hname h
  rw [isFile, hleads.find_join hname] at h
  cases hreach : reach root name with
  | error fault => simp [hreach] at h
  | ok _ =>
    cases hentry : files.entryAt? home name with
    | none => simp [hreach, hentry] at h
    | some entry =>
      have hfile : entry.isFile = true := by simpa [hreach, hentry] using h
      have hfree : files.isDirectory (home ++ [name]) = false := by
        rw [isDirectory, hname.lookup_eq, hentry, decide_eq_false_iff_not]
        intro heq
        rw [Option.some.inj heq] at hfile
        cases hfile
      exact ⟨home ++ [name], by rw [hleads.target_join hname, hreach, hfree]; rfl⟩

structure Furnishes (files files' : FileSystem) : Prop where
  directories : ∀ location, files.isDirectory location = true → files'.isDirectory location = true
  texts : ∀ location text, files'.entries.lookup location = some (.text text) →
    files.entries.lookup location = some (.text text)

namespace Furnishes

theorem refl (files : FileSystem) : Furnishes files files := ⟨fun _ h ↦ h, fun _ _ h ↦ h⟩

theorem trans {files'' : FileSystem} (h : Furnishes files files')
    (h' : Furnishes files' files'') : Furnishes files files'' :=
  ⟨fun location hdirectory ↦ h'.directories location (h.directories location hdirectory),
    fun location text htext ↦ h.texts location text (h'.texts location text htext)⟩

theorem put (location : Location) : Furnishes files (files.put location .directory) := by
  refine ⟨fun other hdirectory ↦ ?_, fun other text htext ↦ ?_⟩
  · by_cases h : other = location
    · rw [isDirectory, lookup, h, FileSystem.put, List.lookup_cons]
      simp
    · rw [isDirectory, lookup_put other _ h]
      exact hdirectory
  · rw [FileSystem.put, lookup_cons_if] at htext
    by_cases h : other = location
    · simp [h] at htext
    · rw [if_neg h, lookup_filter_ne, if_neg h] at htext
      exact htext

theorem makeDirectory {names : List String} (h : files.makeDirectory names = .ok files') :
    Furnishes files files' := by
  obtain ⟨⟨location, name⟩, -, h⟩ := bind_eq_ok.mp h
  obtain ⟨⟨⟩, -, h⟩ := bind_eq_ok.mp h
  obtain ⟨⟨⟩, -, h⟩ := bind_eq_ok.mp h
  obtain ⟨⟨⟩, -, h⟩ := bind_eq_ok.mp h
  obtain rfl := Except.ok.inj h
  exact put _

theorem provideDirectory {names : List String} (h : files.provideDirectory names = .ok files') :
    Furnishes files files' := by
  rw [FileSystem.provideDirectory] at h
  split at h
  · split at h
    · split at h
      · obtain rfl := Except.ok.inj h
        exact refl files
      · cases h
    · cases h
  · exact makeDirectory h

theorem provideAll {ascent : List (List String)} {fault : Option Fault}
    (h : files.provideAll ascent = (files', fault)) : Furnishes files files' := by
  induction ascent generalizing files' fault with
  | nil =>
    obtain ⟨rfl, -⟩ := Prod.mk.inj h
    exact refl files
  | cons names higher ih =>
    rw [FileSystem.provideAll] at h
    split at h
    · rename_i hprovide
      obtain ⟨rfl, -⟩ := Prod.mk.inj h
      exact provideDirectory hprovide
    · -- The directories above are made first, and stay whatever comes after.
      rcases hhigher : files.provideAll higher with ⟨middle, fault'⟩
      rw [hhigher] at h
      have hmiddle := ih hhigher
      split at h
      · rename_i heq
        obtain ⟨rfl, rfl⟩ := Prod.mk.inj heq
        split at h
        · rename_i hprovide
          obtain ⟨rfl, -⟩ := Prod.mk.inj h
          exact hmiddle.trans (provideDirectory hprovide)
        · obtain ⟨rfl, -⟩ := Prod.mk.inj h
          exact hmiddle
      · obtain ⟨rfl, -⟩ := Prod.mk.inj h
        exact hmiddle
    · obtain ⟨rfl, -⟩ := Prod.mk.inj h
      exact refl files

theorem createDirectories {fault : Option Fault}
    (h : files.createDirectories path = (files', fault)) : Furnishes files files' := by
  rw [FileSystem.createDirectories] at h
  split at h
  · obtain ⟨rfl, -⟩ := Prod.mk.inj h
    exact refl files
  · split at h
    · exact provideAll h
    · obtain ⟨rfl, -⟩ := Prod.mk.inj h
      exact refl files

end Furnishes

theorem isDirectory_put_directory (location : Location) :
    (files.put location .directory).isDirectory location = true := by
  simp [isDirectory, lookup, put]

theorem exists_leads_of_provideDirectory
    (h : files.provideDirectory root.names = .ok files') : ∃ home, Leads files' root home := by
  rw [provideDirectory] at h
  split at h
  · split at h
    · rename_i location hwalk
      split at h
      · rename_i hdirectory
        obtain rfl := Except.ok.inj h
        exact ⟨location, hwalk, hdirectory⟩
      · cases h
    · cases h
  · have hkept := (Furnishes.makeDirectory h).directories
    obtain ⟨⟨location, name⟩, hlast, h⟩ := bind_eq_ok.mp h
    obtain ⟨⟨⟩, hplace, h⟩ := bind_eq_ok.mp h
    obtain ⟨⟨⟩, hsize, h⟩ := bind_eq_ok.mp h
    obtain ⟨⟨⟩, -, h⟩ := bind_eq_ok.mp h
    obtain rfl := Except.ok.inj h
    obtain ⟨found, hwalk, hlast⟩ := bind_eq_ok.mp hlast
    obtain ⟨⟨⟩, hdirectory, hlast⟩ := bind_eq_ok.mp hlast
    obtain ⟨rfl, rfl⟩ := Prod.mk.inj (Except.ok.inj hlast)
    have hfound := ensure_eq_ok.mp hdirectory
    have hplace' : isPlace (root.names.getLastD ".") = false := by
      simpa using ensure_eq_ok.mp hplace
    have hne : root.names ≠ [] := by
      intro hnil
      rw [hnil] at hplace'
      cases hplace'
    obtain ⟨front, last, hnames⟩ : ∃ front last, root.names = front ++ [last] :=
      ⟨_, _, (List.dropLast_concat_getLast hne).symm⟩
    rw [hnames, List.getLastD_concat] at hplace' hsize hkept ⊢
    rw [hnames, List.dropLast_concat] at hwalk
    simp only [isPlace, Bool.or_eq_false_iff, decide_eq_false_iff_not] at hplace'
    have hsize' : ¬maxNameSize < last.utf8ByteSize := by
      simpa using ensure_eq_ok.mp hsize
    have hnew := files.isDirectory_put_directory (found ++ [last])
    have hsome : (files.put (found ++ [last]) .directory).lookup (found ++ [last]) =
        some .directory := of_decide_eq_true hnew
    refine ⟨found ++ [last], ?_, hnew⟩
    rw [hnames, walk_append, walk_of_directories hkept hfound hwalk, ok_bind, walk,
      hkept found hfound, hsome]
    simp only [Bool.not_true, Bool.false_eq_true, if_false, hplace', hsize', Option.isNone_some, walk]

theorem exists_leads_of_createDirectories (hne : root.text ≠ "")
    (h : files.createDirectories root = (files', none)) : ∃ home, Leads files' root home := by
  rw [createDirectories, if_neg hne] at h
  split at h
  · rw [Path.ascent, provideAll] at h
    split at h
    · rename_i hprovide
      obtain ⟨rfl, -⟩ := Prod.mk.inj h
      exact exists_leads_of_provideDirectory hprovide
    · split at h
      · split at h
        · rename_i hprovide
          obtain ⟨rfl, -⟩ := Prod.mk.inj h
          exact exists_leads_of_provideDirectory hprovide
        · cases (Prod.mk.inj h).2
      · rename_i hfailed
        exact (hfailed _ h).elim
    · cases (Prod.mk.inj h).2
  · cases (Prod.mk.inj h).2

end TableStore.FileSystem
