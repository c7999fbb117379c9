import TableStore.FileSystem.Basic
import TableStore.Proofs.Lookup
import TableStore.Proofs.Result

namespace TableStore

namespace Path

theorem parts_of_not_mem {cs : List Char} (h : '/' ∉ cs) : parts cs = [cs] := by
  induction cs with
  | nil => rfl
  | cons c cs ih =>
    simp only [List.mem_cons, not_or] at h
    rw [parts.eq_3 c cs fun hc ↦ h.1 hc.symm, ih h.2]

theorem exists_parts_append (cs : List Char) {ds : List Char} (h : '/' ∉ ds) :
    ∃ front part, parts (cs ++ ds) = front ++ [part ++ ds] ∧ '/' ∉ part := by
  induction cs with
  | nil => exact ⟨[], [], parts_of_not_mem h, List.not_mem_nil⟩
  | cons c cs ih =>
    obtain ⟨front, part, hparts, hpart⟩ := ih
    by_cases hc : c = '/'
    · subst hc
      exact ⟨[] :: front, part, by rw [List.cons_append, parts, hparts, List.cons_append], hpart⟩
    · rw [List.cons_append, parts.eq_3 c _ hc, hparts]
      cases front with
      | nil => exact ⟨[], c :: part, rfl, by simp [hpart, Ne.symm hc]⟩
      | cons first front => exact ⟨(c :: first) :: front, part, rfl, hpart⟩

/-- A text without slashes ends the last name along the path that it ends. -/
theorem exists_names_join (root : Path) (text : String) {ending : String} (h : '/' ∉ ending.toList)
    (hne : ending ≠ "") : ∃ (names : List String) (front : String),
      (root.join (text ++ ending)).names = names ++ [front ++ ending] ∧ '/' ∉ front.toList := by
  obtain ⟨front, part, hparts, hpart⟩ := exists_parts_append text.toList h
  have hlast : String.ofList (part ++ ending.toList) = String.ofList part ++ ending :=
    String.toList_inj.mp (by simp)
  have hnames : namesOf (text ++ ending).toList =
      (front.map String.ofList).filter (· ≠ "") ++ [String.ofList part ++ ending] := by
    have hsome : String.ofList part ++ ending ≠ "" := by simp [hne]
    rw [namesOf, String.toList_append, hparts]
    simp [hlast, hsome]
  rw [join]
  split
  · exact ⟨_, String.ofList part, by rw [ofText, hnames, List.append_assoc], by simpa using hpart⟩
  · exact ⟨_, String.ofList part, by rw [hnames, List.append_assoc], by simpa using hpart⟩

end Path

namespace FileSystem

/-- A text that names one entry of a directory. -/
structure IsFileName (name : String) : Prop where
  ne_empty : name ≠ ""
  noSlash : '/' ∉ name.toList
  noPlace : isPlace name = false

/-- Whether the system takes a name of an entry in the directory of a path. -/
def reach (root : Path) (name : String) : Except Fault Unit := do
  let _ ← names (root.join name)
  ensure (name.utf8ByteSize ≤ maxNameSize) .nameTooLong

/-- A path to a directory. -/
structure Leads (files : FileSystem) (root : Path) (home : Location) : Prop where
  walk : files.walk [] root.names = .ok home
  directory : files.isDirectory home = true

/-- A path to a directory without directories in it. -/
structure Rooted (files : FileSystem) (root : Path) (home : Location) : Prop where
  names : FileSystem.names root = .ok root.names
  walk : files.walk [] root.names = .ok home
  directory : files.isDirectory home = true
  nodup : (files.entries.filterMap fun other ↦ nameIn? home other.1).Nodup
  flat : ∀ name entry, files.entries.lookup (home ++ [name]) = some entry → entry.isFile = true

def entryAt? (files : FileSystem) (home : Location) (name : String) : Option Entry :=
  files.entries.lookup (home ++ [name])

section

variable {files : FileSystem} {root : Path} {home : Location} {name : String}

theorem IsFileName.toList_ne_nil (h : IsFileName name) : name.toList ≠ [] := by
  intro hnil
  exact h.ne_empty (String.toList_inj.mp hnil)

theorem IsFileName.not_absolute (h : IsFileName name) : Path.isAbsolute name.toList = false := by
  cases hcs : name.toList with
  | nil => exact absurd hcs h.toList_ne_nil
  | cons c cs =>
    have hc : c ≠ '/' := by
      rintro rfl
      exact h.noSlash (by simp [hcs])
    simp [Path.isAbsolute, hc]

theorem IsFileName.names_join (h : IsFileName name) (root : Path) :
    (root.join name).names = root.names ++ [name] := by
  rw [Path.join, if_neg (by simp [h.not_absolute])]
  simp [Path.namesOf, Path.parts_of_not_mem h.noSlash, h.ne_empty]

theorem IsFileName.endsInSlash_join (h : IsFileName name) (root : Path) :
    (root.join name).endsInSlash = false := by
  obtain ⟨front, last, hlast⟩ : ∃ front last, name.toList = front ++ [last] :=
    ⟨_, _, (List.dropLast_concat_getLast h.toList_ne_nil).symm⟩
  have hne : last ≠ '/' := by
    rintro rfl
    exact h.noSlash (by simp [hlast])
  rw [Path.join, if_neg (by simp [h.not_absolute])]
  simp [Path.endsInSlash, hlast, hne]

theorem isOutset_eq_false (hplace : isPlace name = false) (home : Location) :
    isOutset (home ++ [name]) = false := by
  simp only [isPlace, Bool.or_eq_false_iff, decide_eq_false_iff_not] at hplace
  have hall : (home ++ [name]).all (· = "..") = false := by simp [hplace.1.2]
  have htop : home ++ [name] ≠ ["/"] := by
    intro heq
    have := congrArg List.getLast? heq
    simp [hplace.2] at this
  simp [isOutset, hall, htop]

theorem lookup_eq_entryAt? (h : isPlace name = false) (files : FileSystem) (home : Location) :
    files.lookup (home ++ [name]) = files.entryAt? home name := by
  rw [FileSystem.lookup, isOutset_eq_false h]
  rfl

theorem IsFileName.lookup_eq (h : IsFileName name) (files : FileSystem) (home : Location) :
    files.lookup (home ++ [name]) = files.entryAt? home name :=
  lookup_eq_entryAt? h.noPlace files home

theorem walk_append (files : FileSystem) (location : Location) (front back : List String) :
    files.walk location (front ++ back) =
      (files.walk location front) >>= fun middle ↦ files.walk middle back := by
  induction front generalizing location with
  | nil => rfl
  | cons name front ih =>
    simp only [List.cons_append, FileSystem.walk]
    split
    · rfl
    split
    · exact ih _
    split
    · exact ih _
    split
    · rfl
    split
    · rfl
    · exact ih _

theorem names_eq_ok {path : Path} {found : List String} (h : FileSystem.names path = .ok found) :
    found = path.names := by
  rw [FileSystem.names] at h
  split at h
  · cases h
  split at h
  · cases h
  split at h
  · cases h
  · exact (Except.ok.inj h).symm

theorem not_mem_text_of_names {path : Path} {found : List String}
    (h : FileSystem.names path = .ok found) : '\x00' ∉ path.text.toList := by
  rw [FileSystem.names] at h
  split at h
  · cases h
  · assumption

theorem size_of_reach (h : reach root name = .ok ()) : name.utf8ByteSize ≤ maxNameSize := by
  obtain ⟨_, -, hsize⟩ := bind_eq_ok.mp h
  exact of_decide_eq_true (ensure_eq_ok.mp hsize)

theorem IsFileName.size_join_le (h : IsFileName name) (root : Path) :
    (root.join name).text.utf8ByteSize ≤ root.text.utf8ByteSize + 1 + name.utf8ByteSize := by
  have hempty : "".utf8ByteSize = 0 := rfl
  have hslash : "/".utf8ByteSize = 1 := rfl
  rw [Path.join, if_neg (by simp [h.not_absolute])]
  split <;> simp only [String.utf8ByteSize_append, hempty, hslash] <;> omega

/-- A name that the system does not take is too long, by itself or at the end of the path. -/
theorem reach_eq_error {found : List String} {fault : Fault} (h : FileSystem.names root = .ok found)
    (hname : IsFileName name) (hnul : '\x00' ∉ name.toList)
    (hreach : reach root name = .error fault) : fault = .nameTooLong ∧
      (maxNameSize < name.utf8ByteSize ∨ maxPathSize < (root.join name).text.utf8ByteSize) := by
  have hnul' : '\x00' ∉ (root.join name).text.toList := by
    have hroot := not_mem_text_of_names h
    rw [Path.join, if_neg (by simp [hname.not_absolute])]
    split <;> simp [hroot, hnul]
  have hne : (root.join name).text ≠ "" := by
    intro hempty
    rw [Path.join, if_neg (by simp [hname.not_absolute])] at hempty
    have hlist := congrArg String.toList hempty
    simp [hname.toList_ne_nil] at hlist
  rw [reach, FileSystem.names, if_neg hnul', if_neg hne] at hreach
  split at hreach
  · rename_i hlong
    exact ⟨(Except.error.inj hreach).symm, .inr hlong⟩
  · by_cases hsize : name.utf8ByteSize ≤ maxNameSize
    · simp [hsize] at hreach
    · refine ⟨?_, .inl (by omega)⟩
      simpa [hsize, eq_comm] using hreach

theorem Rooted.leads (h : Rooted files root home) : Leads files root home := ⟨h.walk, h.directory⟩

theorem Leads.walk_concat (h : Leads files root home) (hname : IsFileName name) :
    files.walk [] (root.names ++ [name]) =
      if maxNameSize < name.utf8ByteSize then .error .nameTooLong
      else if (files.entryAt? home name).isNone then .error .notFound
      else .ok (home ++ [name]) := by
  have hplace := hname.noPlace
  simp only [isPlace, Bool.or_eq_false_iff, decide_eq_false_iff_not] at hplace
  rw [walk_append, h.walk, ok_bind, FileSystem.walk, h.directory, hname.lookup_eq]
  simp only [Bool.not_true, Bool.false_eq_true, if_false, hplace, FileSystem.walk]

theorem Leads.find_join (h : Leads files root home) (hname : IsFileName name) :
    files.find (root.join name) = reach root name >>= fun _ ↦
      match files.entryAt? home name with
      | some entry => .ok (home ++ [name], entry)
      | none => .error .notFound := by
  rw [find, reach]
  cases hnames : FileSystem.names (root.join name) with
  | error fault => rfl
  | ok found =>
    obtain rfl := names_eq_ok hnames
    rw [ok_bind, ok_bind, hname.names_join, h.walk_concat hname]
    by_cases hsize : maxNameSize < name.utf8ByteSize
    · have hsize' : ¬name.utf8ByteSize ≤ maxNameSize := by omega
      simp [hsize, hsize']
    · have hsize' : name.utf8ByteSize ≤ maxNameSize := by omega
      cases hentry : files.entryAt? home name with
      | none => simp [hsize, hsize']
      | some entry =>
        simp [hsize, hsize', hname.lookup_eq, hentry, hname.endsInSlash_join]

theorem exists_entryAt?_of_find {path : Path} {front : List String} {location : Location}
    {entry : Entry} (hnames : path.names = front ++ [name]) (hname : IsFileName name)
    (h : files.find path = .ok (location, entry)) :
    ∃ home, location = home ++ [name] ∧ files.entryAt? home name = some entry := by
  obtain ⟨found, hfound, h⟩ := bind_eq_ok.mp h
  obtain ⟨last, hwalk, h⟩ := bind_eq_ok.mp h
  rw [names_eq_ok hfound, hnames, walk_append] at hwalk
  obtain ⟨home, -, hwalk⟩ := bind_eq_ok.mp hwalk
  have hplace := hname.noPlace
  simp only [isPlace, Bool.or_eq_false_iff, decide_eq_false_iff_not] at hplace
  have hlast : last = home ++ [name] := by
    simp only [FileSystem.walk, hplace, if_false] at hwalk
    split at hwalk
    · cases hwalk
    split at hwalk
    · cases hwalk
    split at hwalk
    · cases hwalk
    · exact (Except.ok.inj hwalk).symm
  rw [hlast, hname.lookup_eq] at h
  cases hentry : files.entryAt? home name with
  | none => simp [hentry] at h
  | some other =>
    rw [hentry] at h
    obtain ⟨⟨⟩, -, h⟩ := bind_eq_ok.mp h
    obtain ⟨rfl, rfl⟩ := Prod.mk.inj (Except.ok.inj h)
    exact ⟨home, rfl, hentry⟩

theorem exists_find_of_read {path : Path} {text : String} (h : files.read path = .ok text) :
    ∃ location, files.find path = .ok (location, .text text) := by
  obtain ⟨⟨location, entry⟩, hfind, h⟩ := bind_eq_ok.mp h
  cases entry with
  | text found =>
    obtain rfl := Except.ok.inj h
    exact ⟨location, hfind⟩
  | binary bytes => cases h
  | directory => cases h

theorem exists_leads_of_isFile (hname : IsFileName name)
    (h : files.isFile (root.join name) = true) : ∃ home, Leads files root home := by
  rw [FileSystem.isFile] at h
  cases hfind : files.find (root.join name) with
  | error fault => simp [hfind] at h
  | ok found =>
    obtain ⟨names, hnames, hfind⟩ := bind_eq_ok.mp hfind
    obtain ⟨location, hwalk, -⟩ := bind_eq_ok.mp hfind
    rw [names_eq_ok hnames, hname.names_join, walk_append] at hwalk
    obtain ⟨home, hhome, hlast⟩ := bind_eq_ok.mp hwalk
    refine ⟨home, hhome, ?_⟩
    cases hdirectory : files.isDirectory home with
    | true => rfl
    | false => simp [FileSystem.walk, hdirectory] at hlast

theorem exists_leads_of_write (hname : IsFileName name) {entry : Entry} {files' : FileSystem}
    (h : files.write (root.join name) entry = .ok files') : ∃ home, Leads files root home := by
  obtain ⟨location, htarget, -⟩ := bind_eq_ok.mp h
  obtain ⟨names, hnames, hlast⟩ := bind_eq_ok.mp htarget
  obtain ⟨found, hwalk, -⟩ := bind_eq_ok.mp hlast
  rw [names_eq_ok hnames, hname.names_join] at hwalk
  obtain ⟨home, hhome, hdirectory⟩ := bind_eq_ok.mp hwalk
  rw [List.dropLast_concat] at hhome
  obtain ⟨⟨⟩, hensure, -⟩ := bind_eq_ok.mp hdirectory
  exact ⟨home, hhome, ensure_eq_ok.mp hensure⟩

theorem Leads.isFile_join (h : Leads files root home) (hname : IsFileName name) {text : String}
    (hreach : reach root name = .ok ()) (hentry : files.entryAt? home name = some (.text text)) :
    files.isFile (root.join name) = true := by
  rw [FileSystem.isFile, h.find_join hname, hreach, hentry]
  rfl

theorem Rooted.isFile_join (h : Rooted files root home) (hname : IsFileName name)
    (hreach : (files.entryAt? home name).isSome = true → reach root name = .ok ()) :
    files.isFile (root.join name) = (files.entryAt? home name).isSome := by
  rw [FileSystem.isFile, h.leads.find_join hname]
  cases hentry : files.entryAt? home name with
  | none => cases reach root name <;> rfl
  | some entry =>
    rw [hreach (by simp [hentry])]
    exact h.flat name entry hentry

theorem Rooted.entryExists_join (h : Rooted files root home) (hname : IsFileName name)
    (hreach : (files.entryAt? home name).isSome = true → reach root name = .ok ()) :
    files.entryExists (root.join name) = (files.entryAt? home name).isSome := by
  rw [FileSystem.entryExists, h.leads.find_join hname]
  cases hentry : files.entryAt? home name with
  | none => cases reach root name <;> rfl
  | some entry =>
    rw [hreach (by simp [hentry])]
    rfl

theorem Leads.read_join (h : Leads files root home) (hname : IsFileName name) {text : String}
    (hreach : reach root name = .ok ()) (hentry : files.entryAt? home name = some (.text text)) :
    files.read (root.join name) = .ok text := by
  rw [FileSystem.read, h.find_join hname, hreach, hentry]
  rfl

theorem Rooted.isDirectory_eq_false (h : Rooted files root home) (hname : IsFileName name) :
    files.isDirectory (home ++ [name]) = false := by
  rw [isDirectory, hname.lookup_eq, decide_eq_false_iff_not]
  intro hentry
  exact Bool.noConfusion (h.flat name .directory hentry)

theorem Leads.target_join (h : Leads files root home) (hname : IsFileName name) :
    files.target (root.join name) = reach root name >>= fun _ ↦ do
      ensure (!files.isDirectory (home ++ [name])) .isDirectory
      return home ++ [name] := by
  rw [target, reach]
  cases hnames : FileSystem.names (root.join name) with
  | error fault => rfl
  | ok found =>
    obtain rfl := names_eq_ok hnames
    rw [ok_bind, ok_bind, hname.names_join]
    simp only [walkToLast, List.dropLast_concat, h.walk, ok_bind, h.directory, ensure_true,
      List.getLastD_concat, pure_eq_ok, hname.noPlace, hname.endsInSlash_join, Bool.or_self,
      Bool.not_false]

theorem Rooted.target_join (h : Rooted files root home) (hname : IsFileName name) :
    files.target (root.join name) = (reach root name).map fun _ ↦ home ++ [name] := by
  rw [h.leads.target_join hname, h.isDirectory_eq_false hname]
  cases reach root name <;> rfl

theorem Rooted.write_join (h : Rooted files root home) (hname : IsFileName name) (entry : Entry) :
    files.write (root.join name) entry =
      (reach root name).map fun _ ↦ files.put (home ++ [name]) entry := by
  rw [FileSystem.write, h.target_join hname]
  cases reach root name <;> rfl

theorem Rooted.removeFile_join (h : Rooted files root home) (hname : IsFileName name)
    (hreach : reach root name = .ok ()) (hentry : (files.entryAt? home name).isSome = true) :
    files.removeFile (root.join name) = .ok (files.remove (home ++ [name])) := by
  obtain ⟨entry, hentry⟩ := Option.isSome_iff_exists.mp hentry
  rw [FileSystem.removeFile, h.leads.find_join hname, hreach, hentry]
  simp [h.flat name entry hentry]

theorem Rooted.find_root (h : Rooted files root home) :
    files.find root = .ok (home, .directory) := by
  have hlookup : files.lookup home = some .directory := of_decide_eq_true h.directory
  simp [find, h.names, h.walk, hlookup, Entry.isFile]

theorem Rooted.list_root (h : Rooted files root home) :
    files.list root = .ok (files.entries.filterMap fun other ↦ nameIn? home other.1) := by
  rw [FileSystem.list, h.find_root]
  rfl

theorem nameIn?_eq_some {location : Location} :
    nameIn? home location = some name ↔ location = home ++ [name] := by
  rw [nameIn?]
  constructor
  · intro h
    split at h
    · rename_i hdrop
      obtain ⟨front, rfl⟩ := List.getLast?_eq_some_iff.mp h
      rw [List.dropLast_concat] at hdrop
      rw [hdrop]
    · cases h
  · rintro rfl
    simp

theorem mem_names_iff : name ∈ (files.entries.filterMap fun other ↦ nameIn? home other.1) ↔
    (files.entryAt? home name).isSome = true := by
  rw [entryAt?, List.lookup_isSome_iff, List.mem_filterMap]
  constructor
  · rintro ⟨other, hother, hname⟩
    exact ⟨other, hother, beq_iff_eq.mpr (nameIn?_eq_some.mp hname).symm⟩
  · rintro ⟨other, hother, hlocation⟩
    exact ⟨other, hother, nameIn?_eq_some.mpr (beq_iff_eq.mp hlocation).symm⟩

end

section

variable {files files' : FileSystem} {root : Path} {home moved : Location} {name : String}

theorem lookup_filter_ne (entries : List (Location × Entry)) (location : Location) :
    (entries.filter fun other ↦ other.1 ≠ moved).lookup location =
      if location = moved then none else entries.lookup location := by
  rw [lookup_filter (fun other ↦ decide (other ≠ moved))]
  by_cases h : location = moved <;> simp [h]

theorem lookup_put (location : Location) (entry : Entry) (hne : location ≠ moved) :
    (files.put moved entry).lookup location = files.lookup location := by
  rw [FileSystem.lookup, FileSystem.lookup, put, List.lookup_cons, beq_false_of_ne hne]
  simp only [lookup_filter_ne, if_neg hne]

theorem lookup_remove (location : Location) (hne : location ≠ moved) :
    (files.remove moved).lookup location = files.lookup location := by
  rw [FileSystem.lookup, FileSystem.lookup, remove, lookup_filter_ne, if_neg hne]

theorem lookup_entries_put (location : Location) (entry : Entry) :
    (files.put moved entry).entries.lookup location =
      if location = moved then some entry else files.entries.lookup location := by
  rw [put, lookup_cons_if]
  by_cases h : location = moved
  · rw [if_pos h, if_pos h]
  · simp only [if_neg h, lookup_filter_ne]

theorem lookup_entries_remove (location : Location) :
    (files.remove moved).entries.lookup location =
      if location = moved then none else files.entries.lookup location :=
  lookup_filter_ne files.entries location

theorem entryAt?_put (entry : Entry) (other : String) :
    (files.put (home ++ [name]) entry).entryAt? home other =
      if other = name then some entry else files.entryAt? home other := by
  rw [entryAt?, lookup_entries_put]
  simp [entryAt?]

theorem entryAt?_remove (other : String) :
    (files.remove (home ++ [name])).entryAt? home other =
      if other = name then none else files.entryAt? home other := by
  rw [entryAt?, lookup_entries_remove]
  simp [entryAt?]

theorem walk_of_directories
    (hkept : ∀ location, files.isDirectory location = true → files'.isDirectory location = true)
    {names : List String} {location found : Location} (hfound : files.isDirectory found = true)
    (h : files.walk location names = .ok found) : files'.walk location names = .ok found := by
  induction names generalizing location with
  | nil => exact h
  | cons name rest ih =>
    rw [FileSystem.walk] at h ⊢
    cases hdirectory : files.isDirectory location with
    | false => simp [hdirectory] at h
    | true =>
      rw [hdirectory] at h
      rw [hkept location hdirectory]
      simp only [Bool.not_true, Bool.false_eq_true, if_false] at h ⊢
      by_cases hdot : name = "."
      · rw [if_pos hdot] at h ⊢
        exact ih h
      by_cases hup : name = ".."
      · rw [if_neg hdot, if_pos hup] at h ⊢
        exact ih h
      by_cases hsize : maxNameSize < name.utf8ByteSize
      · rw [if_neg hdot, if_neg hup, if_pos hsize] at h
        cases h
      by_cases hnone : (files.lookup (location ++ [name])).isNone = true
      · rw [if_neg hdot, if_neg hup, if_neg hsize, if_pos hnone] at h
        cases h
      · rw [if_neg hdot, if_neg hup, if_neg hsize, if_neg hnone] at h
        have hstep : files.isDirectory (location ++ [name]) = true := by
          cases rest with
          | nil => exact Except.ok.inj h ▸ hfound
          | cons next rest =>
            cases hstep : files.isDirectory (location ++ [name]) with
            | true => rfl
            | false => simp [FileSystem.walk, hstep] at h
        have hsome : files'.lookup (location ++ [name]) = some .directory :=
          of_decide_eq_true (hkept _ hstep)
        rw [if_neg hdot, if_neg hup, if_neg hsize, hsome, if_neg (by simp)]
        exact ih h

theorem Leads.of_directories (h : Leads files root home)
    (hkept : ∀ location, files.isDirectory location = true → files'.isDirectory location = true) :
    Leads files' root home :=
  ⟨walk_of_directories hkept h.directory h.walk, hkept home h.directory⟩

theorem Leads.of_lookup_eq (h : Leads files root home) (hfile : files.isDirectory moved = false)
    (hsame : ∀ location, location ≠ moved → files'.lookup location = files.lookup location) :
    Leads files' root home := by
  apply h.of_directories
  intro location hdirectory
  have hne : location ≠ moved := by
    rintro rfl
    rw [hdirectory] at hfile
    cases hfile
  rw [isDirectory, hsame location hne]
  exact hdirectory

theorem Rooted.of_lookup_eq (h : Rooted files root home) (hname : IsFileName name)
    (hsame : ∀ location, location ≠ home ++ [name] → files'.lookup location = files.lookup location)
    (hothers : ∀ other, other ≠ name → files'.entryAt? home other = files.entryAt? home other)
    (hnodup : (files'.entries.filterMap fun other ↦ nameIn? home other.1).Nodup)
    (hflat : ∀ entry, files'.entryAt? home name = some entry → entry.isFile = true) :
    Rooted files' root home := by
  obtain ⟨hwalk, hdirectory⟩ := h.leads.of_lookup_eq (h.isDirectory_eq_false hname) hsame
  refine ⟨h.names, hwalk, hdirectory, hnodup, fun other entry hentry ↦ ?_⟩
  by_cases hother : other = name
  · subst hother
    exact hflat entry hentry
  · exact h.flat other entry ((hothers other hother).symm.trans hentry)

theorem Rooted.put (h : Rooted files root home) (hname : IsFileName name) {entry : Entry}
    (hfile : entry.isFile = true) : Rooted (files.put (home ++ [name]) entry) root home := by
  refine h.of_lookup_eq hname (fun location hne ↦ lookup_put location entry hne)
    (fun other hne ↦ by rw [entryAt?_put, if_neg hne]) ?_ fun other hother ↦ ?_
  · rw [FileSystem.put, List.filterMap_cons, nameIn?_eq_some.mpr rfl]
    refine List.nodup_cons.mpr ⟨?_, h.nodup.sublist (List.filter_sublist.filterMap _)⟩
    intro hmem
    obtain ⟨other, hother, hlocation⟩ := List.mem_filterMap.mp hmem
    simp [nameIn?_eq_some.mp hlocation] at hother
  · rw [entryAt?_put, if_pos rfl] at hother
    exact Option.some.inj hother ▸ hfile

theorem Rooted.remove (h : Rooted files root home) (hname : IsFileName name) :
    Rooted (files.remove (home ++ [name])) root home := by
  refine h.of_lookup_eq hname (fun location hne ↦ lookup_remove location hne)
    (fun other hne ↦ by rw [entryAt?_remove, if_neg hne]) ?_ fun other hother ↦ ?_
  · exact h.nodup.sublist (List.filter_sublist.filterMap _)
  · rw [entryAt?_remove, if_pos rfl] at hother
    cases hother

def removeAll (files : FileSystem) (home : Location) (names : List String) : FileSystem :=
  names.foldl (fun files name ↦ files.remove (home ++ [name])) files

theorem removeAll_append (names : List String) (name : String) :
    files.removeAll home (names ++ [name]) = (files.removeAll home names).remove (home ++ [name]) := by
  rw [removeAll, List.foldl_append]
  rfl

theorem entryAt?_removeAll (names : List String) (other : String) :
    (files.removeAll home names).entryAt? home other =
      if other ∈ names then none else files.entryAt? home other := by
  induction names generalizing files with
  | nil => rfl
  | cons name names ih =>
    rw [removeAll, List.foldl_cons]
    refine ih.trans ?_
    rw [entryAt?_remove]
    by_cases hname : other = name <;> simp [hname]

theorem lookup_removeAll {names : List String} {location : Location}
    (hne : ∀ name ∈ names, location ≠ home ++ [name]) :
    (files.removeAll home names).lookup location = files.lookup location := by
  induction names generalizing files with
  | nil => rfl
  | cons name names ih =>
    obtain ⟨hfirst, hrest⟩ := List.forall_mem_cons.mp hne
    rw [removeAll, List.foldl_cons]
    exact (ih hrest).trans (lookup_remove location hfirst)

theorem Rooted.removeAll (h : Rooted files root home) {names : List String}
    (hnames : ∀ name ∈ names, IsFileName name) : Rooted (files.removeAll home names) root home := by
  induction names generalizing files with
  | nil => exact h
  | cons name names ih =>
    obtain ⟨hfirst, hrest⟩ := List.forall_mem_cons.mp hnames
    exact ih (h.remove hfirst) hrest

theorem makeDirectory_of_walk {names : List String} (h : files.walk [] names = .ok home) :
    files.makeDirectory names = .error .exists := by
  by_cases hnil : names = []
  · subst hnil
    rfl
  obtain ⟨front, last, rfl⟩ : ∃ front last, names = front ++ [last] :=
    ⟨_, _, (List.dropLast_concat_getLast hnil).symm⟩
  rw [walk_append] at h
  obtain ⟨middle, hfront, hlast⟩ := bind_eq_ok.mp h
  have hdirectory : files.isDirectory middle = true := by
    cases hdirectory : files.isDirectory middle with
    | true => rfl
    | false => simp [FileSystem.walk, hdirectory] at hlast
  simp only [makeDirectory, walkToLast, List.dropLast_concat, List.getLastD_concat, hfront, ok_bind,
    hdirectory, ensure_true, pure_eq_ok]
  cases hplace : isPlace last with
  | true => rfl
  | false =>
    simp only [isPlace, Bool.or_eq_false_iff, decide_eq_false_iff_not] at hplace
    simp only [FileSystem.walk, hdirectory, Bool.not_true, Bool.false_eq_true, if_false,
      hplace] at hlast
    by_cases hsize : maxNameSize < last.utf8ByteSize
    · rw [if_pos hsize] at hlast
      cases hlast
    by_cases hnone : (files.lookup (middle ++ [last])).isNone = true
    · rw [if_neg hsize, if_pos hnone] at hlast
      cases hlast
    · have hfits : last.utf8ByteSize ≤ maxNameSize := by omega
      rw [Bool.not_eq_true] at hnone
      simp [hfits, hnone]

theorem Rooted.createDirectories (h : Rooted files root home) :
    files.createDirectories root = (files, none) := by
  have hprovide : files.provideDirectory root.names = .ok files := by
    simp only [provideDirectory, makeDirectory_of_walk h.walk, h.walk, h.directory, if_true]
  rw [FileSystem.createDirectories]
  split
  · rfl
  · rw [h.names]
    simp only [Path.ascent, provideAll, hprovide]

end

end FileSystem

end TableStore
