import TableStore.Proofs.Store.History
import TableStore.Proofs.Store.Requests

namespace TableStore

open FileSystem (Location Rooted)
open Store (isName)

inductive Event
  | call (call : Call)
  | reopen (config : Config)

namespace Event

/-- The store after an event. Settings can be refused, and then the store stays in use. -/
def after (store : Store) : Event → Store
  | .call made => made.after store
  | .reopen config =>
    match Store.start config store.files with
    | (.ok opened, _) => opened
    | (.error _, files) => { store with files }

/-- The table that an event is about. Opening the directory is about none. -/
def table? : Event → Option String
  | .call made => made.table?
  | .reopen _ => none

/-- An event that stays with one root directory, and takes the names of tables only if they can be
names. -/
def Fits (root : String) : Event → Prop
  | .call made => made.IsNamed
  | .reopen config => config.root = root

end Event

/-- The stores that events lead to from an empty root directory. -/
inductive Grown : Store → Prop
  | start {config : Config} {files files' : FileSystem} {store : Store}
      (hstart : Store.start config files = (.ok store, files'))
      (hempty : files'.list config.rootPath = .ok []) : Grown store
  | event {store : Store} (h : Grown store) {event : Event} (hfits : event.Fits store.config.root) :
      Grown (event.after store)

section

variable {home : Location} {store twin : Store} {table : String}

/-- Opening the root directory again changes no file, and forgets the indexes in memory unless the
settings are refused. -/
theorem Event.after_reopen {config : Config} (h : Rooted store.files store.config.rootPath home)
    (hroot : config.root = store.config.root) : (Event.reopen config).after store =
      if config.fault? = none then ⟨config, store.files, []⟩ else store := by
  have hpath := Config.rootPath_of_root hroot
  rw [Event.after, Store.start, hpath, h.createDirectories]
  cases config.fault? <;> rfl

theorem Store.neat_of_start {config : Config} {files files' : FileSystem}
    (hstart : Store.start config files = (.ok store, files'))
    (hempty : files'.list config.rootPath = .ok []) : ∃ home, store.Neat home := by
  obtain ⟨hfault, -, rfl⟩ := Store.start_eq_ok hstart
  obtain ⟨home, hrooted, hnone⟩ := FileSystem.rooted_of_list_nil hempty
  have hsturdy : Store.Sturdy [home] ⟨config, files', []⟩ :=
    (History.start hstart hempty hrooted.leads).sturdy
  refine ⟨home, ⟨hrooted, fun hfile ↦ ?_, fun hfile ↦ ?_, fun _ _ hfile ↦ ?_, nofun⟩, hsturdy⟩
  all_goals simp [hnone] at hfile

theorem Store.tableExists_of_start {config : Config} {files files' : FileSystem}
    (hstart : Store.start config files = (.ok store, files'))
    (hempty : files'.list config.rootPath = .ok []) (table : String) :
    store.tableExists table = false := by
  obtain ⟨-, -, rfl⟩ := Store.start_eq_ok hstart
  obtain ⟨home, hrooted, hnone⟩ := FileSystem.rooted_of_list_nil hempty
  have hstore := Holds.empty hrooted hnone
  rw [Store.tableExists]
  cases htable : isName table with
  | false => rfl
  | true => rw [hstore.isFile_table htable]; rfl

theorem Store.Neat.reopen {config : Config} (h : store.Neat home)
    (hroot : config.root = store.config.root) : ((Event.reopen config).after store).Neat home := by
  have hpath := Config.rootPath_of_root hroot
  rw [Event.after_reopen h.rooted hroot]
  split
  · rename_i hfault
    have hstands : Store.Stands ⟨config, store.files, []⟩ home := by
      rw [Store.Stands, hpath]
      exact h.rooted.leads
    refine ⟨⟨hpath ▸ h.rooted, hpath ▸ h.reach, h.only, h.owned, fun hcached ↦ ?_⟩, hfault,
      ⟨home, List.mem_singleton.mpr rfl, hstands⟩, h.sturdy.tended, fun _ _ hcached ↦ ?_⟩
    all_goals cases hcached
  · exact h

theorem Event.after_neat {event : Event} (h : store.Neat home)
    (hfits : event.Fits store.config.root) : (event.after store).Neat home := by
  cases event with
  | call made => exact h.after hfits
  | reopen config => exact h.reopen hfits

theorem Event.root_after {event : Event} (h : store.Neat home)
    (hfits : event.Fits store.config.root) : (event.after store).config.root = store.config.root := by
  cases event with
  | call made =>
    cases htable : made.table? with
    | some table => exact congrArg _ (h.others_unchanged htable hfits).config
    | none =>
      obtain ⟨e, hrun⟩ := Call.run_of_table?_eq_none htable
      rw [Event.after, Call.after, hrun]
  | reopen config =>
    rw [Event.after_reopen h.rooted hfits]
    split
    · exact hfits
    · rfl

theorem Agree.reopen {shared : String → Prop} {config : Config} (h : Agree home shared store twin)
    (hroot : config.root = store.config.root) :
    Agree home shared ((Event.reopen config).after store) ((Event.reopen config).after twin) := by
  have hpath := Config.rootPath_of_root hroot
  have hroot' : config.root = twin.config.root := by rw [hroot, h.config]
  rw [Event.after_reopen h.rooted hroot, Event.after_reopen h.symm.rooted hroot']
  split
  · exact ⟨rfl, hpath ▸ h.rooted, hpath ▸ h.rooted', h.files, fun _ _ ↦ rfl⟩
  · exact h

theorem Event.others_unchanged {event : Event} (h : store.Neat home)
    (hevent : event.table? = some table) (hfits : event.Fits store.config.root) :
    Agree home (· ≠ table) store (event.after store) := by
  cases event with
  | call made => exact h.others_unchanged hevent hfits
  | reopen config => cases hevent

theorem Agree.event {shared : String → Prop} {event : Event} (h : Agree home shared store twin)
    (hstore : store.Neat home) (htwin : twin.Neat home) (hfits : event.Fits store.config.root) :
    Agree home shared (event.after store) (event.after twin) := by
  cases event with
  | call made =>
    cases hmade : made.table? with
    | some table =>
      by_cases hshared : shared table
      · exact (h.call hstore hshared hmade hfits).2
      · have hother : ∀ other, shared other → other ≠ table :=
          fun other hother heq ↦ hshared (heq ▸ hother)
        have hframe := (hstore.others_unchanged hmade hfits).mono hother
        have hframe' := (htwin.others_unchanged hmade hfits).mono hother
        exact (hframe.symm.trans h).trans hframe'
    | none =>
      obtain ⟨e, hrun⟩ := Call.run_of_table?_eq_none hmade
      rw [Event.after, Event.after, Call.after, Call.after, hrun, hrun]
      exact h
  | reopen config => exact h.reopen hfits

theorem Agree.events {shared : String → Prop} {events : List Event}
    (h : Agree home shared store twin) (hstore : store.Neat home) (htwin : twin.Neat home)
    (hfits : ∀ event ∈ events, event.Fits store.config.root) :
    (events.foldl Event.after store).Neat home ∧
      Agree home shared (events.foldl Event.after store) (events.foldl Event.after twin) := by
  induction events generalizing store twin with
  | nil => exact ⟨hstore, h⟩
  | cons event rest ih =>
    obtain ⟨hfirst, hrest⟩ := List.forall_mem_cons.mp hfits
    refine ih (h.event hstore htwin hfirst) (Event.after_neat hstore hfirst)
      (Event.after_neat htwin (h.config ▸ hfirst)) ?_
    rwa [Event.root_after hstore hfirst]

theorem Grown.neat (h : Grown store) : ∃ home, store.Neat home := by
  induction h with
  | start hstart hempty => exact Store.neat_of_start hstart hempty
  | event _ hfits ih =>
    obtain ⟨home, hstore⟩ := ih
    exact ⟨home, Event.after_neat hstore hfits⟩

theorem Grown.call (h : Grown store) {call : Call} (hnamed : call.IsNamed) :
    Grown (call.after store) :=
  @Grown.event store h (.call call) hnamed

theorem Grown.calls (h : Grown store) {calls : List Call} (hnamed : ∀ call ∈ calls, call.IsNamed) :
    Grown (calls.foldl Call.after store) := by
  induction calls generalizing store with
  | nil => exact h
  | cons call rest ih =>
    obtain ⟨hfirst, hrest⟩ := List.forall_mem_cons.mp hnamed
    exact ih (h.call hfirst) hrest

theorem Grown.opened : Grown Reachable.opened := by
  have hstart : Store.start {} .empty = (.ok Reachable.opened, Reachable.opened.files) := rfl
  exact .start hstart rfl

end

end TableStore
