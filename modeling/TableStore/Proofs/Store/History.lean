import TableStore.Proofs.Statement.Stays
import TableStore.Proofs.Store.Reopened
import TableStore.Proofs.Store.Unbroken
import TableStore.Proofs.Token.Segmented

namespace TableStore

open FileSystem (Leads Location Furnishes)
open Store (isName)

theorem Store.exists_leads_of_start {config : Config} {files files' : FileSystem} {store : Store}
    (h : start config files = (.ok store, files')) : ∃ home, Leads files' config.rootPath home := by
  obtain ⟨hfault, hdirectories, -⟩ := start_eq_ok h
  refine FileSystem.exists_leads_of_createDirectories ?_ hdirectories
  intro hempty
  have hroot : config.root = "" := hempty
  rw [Config.fault?, hroot] at hfault
  split at hfault
  · cases hfault
  · cases hfault

/-- The stores that a history leads to, with the directories that were opened in it. It begins in an
empty directory. After any calls a store can be opened with any settings, which may be refused, over a
directory that was opened before or that has no files. A store that was opened always stands in a
directory (`Store.exists_leads_of_start`), which `hhome` gives a name. -/
inductive History : List Location → Store → Prop
  | start {config : Config} {files files' : FileSystem} {store : Store} {home : Location}
      (hstart : Store.start config files = (.ok store, files'))
      (hempty : files'.list config.rootPath = .ok []) (hhome : Leads files' config.rootPath home) :
      History [home] store
  | call {homes : List Location} {store : Store} (h : History homes store) (call : Call) :
      History homes (call.after store)
  | refused {homes : List Location} {store : Store} (h : History homes store) {config : Config}
      {files' : FileSystem} {e : Error} (hstart : Store.start config store.files = (.error e, files')) :
      History homes { store with files := files' }
  | reopen {homes : List Location} {store : Store} (h : History homes store) {config : Config}
      {files' : FileSystem} {store' : Store} {home : Location}
      (hstart : Store.start config store.files = (.ok store', files'))
      (hhome : Leads files' config.rootPath home)
      (hown : home ∈ homes ∨
        ∀ file entry, files'.entryAt? home file = some entry → entry = .directory) :
      History (home :: homes) store'

section

variable {config : Config} {files files' : FileSystem} {store : Store} {homes : List Location}

theorem Store.furnishes_of_start {result : Except Error Store}
    (h : start config files = (result, files')) : Furnishes files files' := by
  rw [start] at h
  split at h
  · obtain ⟨-, rfl⟩ := Prod.mk.inj h
    exact .refl files
  · split at h
    · rename_i hdirectories
      obtain ⟨-, rfl⟩ := Prod.mk.inj h
      exact .createDirectories hdirectories
    · rename_i hdirectories
      obtain ⟨-, rfl⟩ := Prod.mk.inj h
      exact .createDirectories hdirectories

theorem tended_of_directories {home : Location}
    (h : ∀ file entry, files.entryAt? home file = some entry → entry = .directory) :
    Tended files home := by
  intro file text hentry
  cases h file _ hentry

theorem Call.after_sturdy (h : store.Sturdy homes) (call : Call) :
    (call.after store).Sturdy homes := by
  exact (Safe.call call store h).1

theorem History.sturdy (h : History homes store) : store.Sturdy homes := by
  induction h with
  | @start config files files' store home hstart hempty hhome =>
    obtain ⟨hfault, -, rfl⟩ := Store.start_eq_ok hstart
    obtain ⟨home', hrooted, hnone⟩ := FileSystem.rooted_of_list_nil hempty
    obtain rfl : home' = home := Except.ok.inj (hrooted.walk.symm.trans hhome.walk)
    refine ⟨hfault, ⟨home', by simp, hhome⟩, fun other hother ↦ ?_, nofun⟩
    obtain rfl := List.mem_singleton.mp hother
    exact tended_of_directories fun file entry hentry ↦ by simp [hnone] at hentry
  | call _ call ih => exact Call.after_sturdy ih call
  | @refused homes store _ config files' e hstart ih =>
    have hfurnishes := Store.furnishes_of_start hstart
    obtain ⟨home, hhome, hstands⟩ := ih.home
    exact ⟨ih.config, ⟨home, hhome, hstands.of_directories hfurnishes.directories⟩,
      fun other hother ↦ (ih.tended other hother).furnish hfurnishes, ih.cache⟩
  | @reopen homes store _ config files' store' home hstart hhome hown ih =>
    have hfurnishes := Store.furnishes_of_start hstart
    obtain ⟨hfault, -, rfl⟩ := Store.start_eq_ok hstart
    refine ⟨hfault, ⟨home, by simp, hhome⟩, ?_, nofun⟩
    have hhomes : ∀ other ∈ homes, Tended files' other :=
      fun other hother ↦ (ih.tended other hother).furnish hfurnishes
    refine List.forall_mem_cons.mpr ⟨?_, hhomes⟩
    rcases hown with hmem | hdirectories
    · exact hhomes home hmem
    · exact tended_of_directories hdirectories

end

namespace History

theorem calls {homes : List Location} {store : Store} (h : History homes store)
    (calls : List Call) : History homes (calls.foldl Call.after store) := by
  induction calls generalizing store with
  | nil => exact h
  | cons next rest ih => exact ih (h.call next)

end History

end TableStore
