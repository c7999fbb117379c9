import TableStore.Proofs.Store.Grown

namespace TableStore

open FileSystem (Location)
open Store (isName)

variable {home : Location} {store : Store} {table other : String}

theorem Store.Neat.requests_commute (h : store.Neat home) (htable : isName table = true)
    (hother : isName other = true) (hne : table ≠ other) {a b : Request}
    (ha : a.table? = some table) (hb : b.table? = some other) :
    Agree home (fun _ ↦ True) (b.after (a.after store)) (a.after (b.after store)) := by
  have hafterA := Request.after_neat h ha htable
  have hafterB := Request.after_neat h hb hother
  -- Away from the other table both orders come to what the first request alone makes of the store.
  have haway : Agree home (· ≠ other) (b.after (a.after store)) (a.after (b.after store)) :=
    (Request.others_unchanged hafterA hb hother).symm.trans
      ((Request.others_unchanged h hb hother).request h hne ha htable).2
  have haway' : Agree home (· ≠ table) (b.after (a.after store)) (a.after (b.after store)) :=
    (((Request.others_unchanged h ha htable).request h hne.symm hb hother).2.symm).trans
      (Request.others_unchanged hafterB ha htable)
  refine (haway.union haway').mono fun name _ ↦ ?_
  by_cases hname : name = other
  · exact .inr fun heq ↦ hne (heq.symm.trans hname)
  · exact .inl hname

/-- Requests about two tables give the same answers and the same directory in either order. A request
about one table changes no file of the other, and no later answer about it, whatever happens until
then. -/
theorem Grown.tables_independent (h : Grown store) (htable : isName table = true)
    (hother : isName other = true) (hne : table ≠ other) {a b : Request}
    (ha : a.table? = some table) (hb : b.table? = some other) :
    a.answer (b.after store) = a.answer store ∧ b.answer (a.after store) = b.answer store ∧
    (∀ location, (a.after (b.after store)).files.lookup location =
      (b.after (a.after store)).files.lookup location) ∧
    (∃ home, store.Stands home ∧ ∀ file, Store.IsOwnFile other file →
      (a.after store).files.lookup (home ++ [file]) = store.files.lookup (home ++ [file])) ∧
    ∀ later : List Event, (∀ event ∈ later, event.Fits store.config.root) →
      ∀ request : Request, request.table? = some other →
        request.answer (later.foldl Event.after (a.after store)) =
          request.answer (later.foldl Event.after store) := by
  obtain ⟨home, hstore⟩ := h.neat
  have hframe := Request.others_unchanged hstore ha htable
  have hboth := hstore.requests_commute htable hother hne ha hb
  refine ⟨?_, ?_, fun location ↦ ?_, ⟨home, hstore.rooted.leads, fun file hfile ↦ ?_⟩,
    fun later hlater request hrequest ↦ ?_⟩
  · exact ((Request.others_unchanged hstore hb hother).request hstore hne ha htable).1
  · exact (hframe.request hstore hne.symm hb hother).1
  · rw [FileSystem.lookup, FileSystem.lookup, hboth.files location fun _ _ ↦ trivial]
  · have hentry := hframe.entryAt?_eq hne.symm hfile hother
    simp only [FileSystem.entryAt?] at hentry
    rw [FileSystem.lookup, FileSystem.lookup, hentry]
  · obtain ⟨hneat, hafter⟩ :=
      hframe.events hstore (Request.after_neat hstore ha htable) hlater
    exact (hafter.request hneat hne.symm hrequest hother).1

namespace Grown

/-- Two tables of which the name of one begins that of the other. -/
def pair : Store :=
  [.createTable "t" Reachable.integers, .createTable "tt" Reachable.integers].foldl Call.after
    Reachable.opened

theorem pair_grown : Grown pair := by
  refine opened.calls ?_
  rintro call (_ | ⟨_, _ | ⟨_, ⟨⟩⟩⟩) <;> trivial

theorem tables_independent_pair : Grown pair ∧ isName "t" = true ∧ isName "tt" = true ∧
    ((Call.dropTable "t").answer pair).toOption.isSome = true ∧
    ((Call.createIndex "tt" "n").answer ((Call.dropTable "t").after pair)).toOption =
      ((Call.createIndex "tt" "n").answer pair).toOption ∧
    ∀ location, ((Call.dropTable "t").after ((Call.createIndex "tt" "n").after pair)).files.lookup
      location = ((Call.createIndex "tt" "n").after ((Call.dropTable "t").after pair)).files.lookup
        location := by
  have hname : isName "t" = true := by decide
  have hname' : isName "tt" = true := by decide
  have hdropped : ((Call.dropTable "t").answer pair).toOption.isSome = true := by decide +kernel
  obtain ⟨-, hanswer, hfiles, -⟩ := tables_independent pair_grown hname hname' (by decide)
    (a := .call (.dropTable "t")) (b := .call (.createIndex "tt" "n")) rfl rfl
  exact ⟨pair_grown, hname, hname', hdropped, congrArg Except.toOption hanswer, hfiles⟩

end Grown

end TableStore
