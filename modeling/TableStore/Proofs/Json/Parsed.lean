import TableStore.Json.Decode
import TableStore.Proofs.Json.Text
import TableStore.Proofs.Lookup

namespace TableStore

theorem mapM_some_self {α : Type} {f : α → Option α} {xs : List α} (hf : ∀ x ∈ xs, f x = some x) :
    xs.mapM f = some xs := by
  induction xs with
  | nil => rfl
  | cons x xs ih => simp [hf x (by simp), ih fun y hy ↦ hf y (List.mem_cons_of_mem _ hy)]

theorem exists_of_mapM_eq_some {α β : Type} {f : α → Option β} {xs : List α} {ys : List β}
    (h : xs.mapM f = some ys) : ∀ y ∈ ys, ∃ x ∈ xs, f x = some y := by
  induction xs generalizing ys with
  | nil =>
    obtain rfl := Option.some.inj h
    simp
  | cons x xs ih =>
    rw [List.mapM_cons] at h
    obtain ⟨first, hfirst, h⟩ := Option.bind_eq_some_iff.mp h
    obtain ⟨rest, hrest, h⟩ := Option.bind_eq_some_iff.mp h
    obtain rfl := Option.some.inj h
    intro y hy
    rcases List.mem_cons.mp hy with rfl | hy
    · exact ⟨x, by simp, hfirst⟩
    · obtain ⟨other, hother, heq⟩ := ih hrest y hy
      exact ⟨other, List.mem_cons_of_mem _ hother, heq⟩

theorem exists_of_mem_of_mapM {α β : Type} {f : α → Option β} {xs : List α} {ys : List β}
    (h : xs.mapM f = some ys) : ∀ x ∈ xs, ∃ y, f x = some y := by
  induction xs generalizing ys with
  | nil => simp
  | cons x xs ih =>
    rw [List.mapM_cons] at h
    obtain ⟨first, hfirst, h⟩ := Option.bind_eq_some_iff.mp h
    obtain ⟨rest, hrest, -⟩ := Option.bind_eq_some_iff.mp h
    rintro y (_ | ⟨_, hy⟩)
    · exact ⟨first, hfirst⟩
    · exact ih hrest y hy

namespace Record

theorem insert_of_not_mem {name : String} {json : Json} {record : Record}
    (h : name ∉ record.map Prod.fst) : record.insert name json = record ++ [(name, json)] := by
  induction record with
  | nil => rfl
  | cons member rest ih =>
    obtain ⟨key, old⟩ := member
    simp only [List.map_cons, List.mem_cons, not_or] at h
    rw [Record.insert, if_neg (Ne.symm h.1), ih h.2, List.cons_append]

theorem names_insert_of_mem {name : String} {json : Json} {record : Record}
    (h : name ∈ record.map Prod.fst) :
    (record.insert name json).map Prod.fst = record.map Prod.fst := by
  induction record with
  | nil => cases h
  | cons member rest ih =>
    obtain ⟨key, old⟩ := member
    rw [Record.insert]
    by_cases hkey : key = name
    · rw [if_pos hkey]
      rfl
    · rw [if_neg hkey, List.map_cons, List.map_cons,
        ih ((List.mem_cons.mp h).resolve_left (Ne.symm hkey))]

theorem mem_insert {name : String} {json : Json} {record : Record} {member : String × Json}
    (h : member ∈ record.insert name json) : member = (name, json) ∨ member ∈ record := by
  induction record with
  | nil => exact .inl (List.mem_singleton.mp h)
  | cons first rest ih =>
    obtain ⟨key, old⟩ := first
    rw [Record.insert] at h
    split at h
    · rename_i hkey
      rcases List.mem_cons.mp h with hmem | hmem
      · exact .inl (hkey ▸ hmem)
      · exact .inr (List.mem_cons_of_mem _ hmem)
    · rcases List.mem_cons.mp h with rfl | hmem
      · exact .inr List.mem_cons_self
      · exact (ih hmem).imp_right (List.mem_cons_of_mem _)

theorem ofList_mem (members : List (String × Json)) :
    ((ofList members).map Prod.fst).Nodup ∧ ∀ member ∈ ofList members, member ∈ members := by
  have hfold : ∀ (members : List (String × Json)) (record : Record),
      (record.map Prod.fst).Nodup →
        ((members.foldl (fun record member ↦ record.insert member.1 member.2) record).map
          Prod.fst).Nodup ∧
        ∀ member ∈ members.foldl (fun record member ↦ record.insert member.1 member.2) record,
          member ∈ record ∨ member ∈ members := by
    intro members
    induction members with
    | nil => exact fun record hnodup ↦ ⟨hnodup, fun member hmember ↦ .inl hmember⟩
    | cons first rest ih =>
      intro record hnodup
      have hnext : ((record.insert first.1 first.2).map Prod.fst).Nodup := by
        by_cases hmem : first.1 ∈ record.map Prod.fst
        · rwa [names_insert_of_mem hmem]
        · rw [insert_of_not_mem hmem, List.map_append, List.nodup_append]
          refine ⟨hnodup, by simp, fun name hname other hother ↦ ?_⟩
          rw [List.mem_singleton.mp hother]
          rintro rfl
          exact hmem hname
      obtain ⟨hnodup', hmembers⟩ := ih _ hnext
      refine ⟨hnodup', fun member hmember ↦ ?_⟩
      rcases hmembers member hmember with hmember | hmember
      · rcases mem_insert hmember with rfl | hmember
        · exact .inr List.mem_cons_self
        · exact .inl hmember
      · exact .inr (List.mem_cons_of_mem _ hmember)
  obtain ⟨hnodup, hmembers⟩ := hfold members [] List.nodup_nil
  exact ⟨hnodup, fun member hmember ↦ (hmembers member hmember).resolve_left List.not_mem_nil⟩

theorem ofList_of_nodup {members : List (String × Json)} (h : (members.map Prod.fst).Nodup) :
    ofList members = members := by
  have hfold : ∀ (members : List (String × Json)) (record : Record),
      ((record ++ members).map Prod.fst).Nodup →
        members.foldl (fun record member ↦ record.insert member.1 member.2) record =
          record ++ members := by
    intro members
    induction members with
    | nil => simp
    | cons member rest ih =>
      intro record hnodup
      have hfresh : member.1 ∉ record.map Prod.fst := by
        rw [List.map_append, List.nodup_append] at hnodup
        exact fun hmem ↦ hnodup.2.2 _ hmem member.1 (by simp) rfl
      rw [List.foldl_cons, insert_of_not_mem hfresh, ih _ (by simpa using hnodup)]
      simp
  exact hfold members [] h

theorem get?_insert (record : Record) (name other : String) (json : Json) :
    (record.insert name json).get? other =
      if other = name then some json else record.get? other := by
  induction record with
  | nil => rw [Record.insert, get?, lookup_cons_if]; rfl
  | cons member rest ih =>
    obtain ⟨key, old⟩ := member
    simp only [get?] at ih
    simp only [Record.insert, get?]
    by_cases hkey : key = name
    · subst hkey
      rw [if_pos rfl, lookup_cons_if, lookup_cons_if]
      by_cases h : other = key <;> simp [h]
    · rw [if_neg hkey, lookup_cons_if, ih, lookup_cons_if]
      by_cases h : other = key
      · simp [h, hkey]
      · simp [h]

theorem names_ofList (members : List (String × Json)) :
    (ofList members).map Prod.fst = (members.map Prod.fst).eraseDups := by
  have hfold : ∀ (members : List (String × Json)) (record : Record),
      (members.foldl (fun record member ↦ record.insert member.1 member.2) record).map Prod.fst =
        record.map Prod.fst ++
          ((members.map Prod.fst).filter fun name ↦ name ∉ record.map Prod.fst).eraseDups := by
    intro members
    induction members with
    | nil => simp
    | cons first rest ih =>
      intro record
      rw [List.foldl_cons, ih, List.map_cons]
      by_cases hmem : first.1 ∈ record.map Prod.fst
      · rw [names_insert_of_mem hmem, List.filter_cons_of_neg (by simpa using hmem)]
      · have hrest : ((rest.map Prod.fst).filter fun name ↦ name ∉ record.map Prod.fst ++ [first.1]) =
            (rest.map Prod.fst).filter fun name ↦
              !name == first.1 && decide (name ∉ record.map Prod.fst) := by
          apply List.filter_congr
          intro name _
          rw [Bool.eq_iff_iff]
          simp [and_comm]
        rw [insert_of_not_mem hmem, List.filter_cons_of_pos (by simpa using hmem),
          List.eraseDups_cons, List.filter_filter, List.map_append, List.map_singleton, hrest,
          List.append_assoc, List.singleton_append]
  rw [ofList, hfold]
  simp [List.filter_eq_self.mpr]

theorem get?_ofList (members : List (String × Json)) (name : String) :
    (ofList members).get? name = members.reverse.lookup name := by
  have hfold : ∀ (members : List (String × Json)) (record : Record),
      (members.foldl (fun record member ↦ record.insert member.1 member.2) record).get? name =
        (members.reverse.lookup name).or (record.get? name) := by
    intro members
    induction members with
    | nil => exact fun record ↦ rfl
    | cons first rest ih =>
      intro record
      obtain ⟨key, json⟩ := first
      rw [List.foldl_cons, ih, get?_insert, List.reverse_cons, List.lookup_append, lookup_cons_if]
      cases rest.reverse.lookup name with
      | some found => rfl
      | none => by_cases h : name = key <;> simp [h]
  rw [ofList, hfold]
  exact Option.or_none

theorem ext_get? {record record' : Record} (hnodup : (record.map Prod.fst).Nodup)
    (hnames : record.map Prod.fst = record'.map Prod.fst)
    (hget : ∀ name ∈ record.map Prod.fst, record.get? name = record'.get? name) :
    record = record' := by
  have hmap : ∀ record : Record, (record.map Prod.fst).Nodup → record.map some =
      (record.map Prod.fst).map fun name ↦ (record.get? name).map fun json ↦ (name, json) := by
    intro record hnodup
    rw [List.map_map]
    refine List.map_congr_left fun member hmember ↦ ?_
    rw [Function.comp_apply, get?, lookup_of_mem hnodup hmember]
    rfl
  apply (List.map_inj_right fun _ _ ↦ Option.some.inj).mp
  rw [hmap record hnodup, hmap record' (hnames ▸ hnodup), ← hnames]
  exact List.map_congr_left fun name hname ↦ by rw [hget name hname]

end Record

namespace Json

/-- A tree of which every number is read back as it is. -/
inductive Tree.Readable : Tree → Prop
  | leaf {value : Option Scalar} (h : ∀ s ∈ value, s.Readable) : Readable (.leaf value)
  | array {items : List Tree} (h : ∀ item ∈ items, Readable item) : Readable (.array items)
  | object {members : List (Option String × Tree)} (h : ∀ member ∈ members, Readable member.2) :
    Readable (.object members)

namespace Reader

theorem readable_of_numberValue {negative : Bool} {whole fraction : List Char}
    {exponent : Option Int} {n : Number}
    (h : numberValue negative whole fraction exponent = some n) : Readable n := by
  cases n with
  | float x => trivial
  | integer i =>
    simp only [numberValue] at h
    split at h
    · split at h
      · split at h
        · rename_i hbounds
          simp only [Numeral.wordLimit, Option.some.injEq, Number.integer.injEq] at hbounds h
          simp only [Readable, IsWord, Numeral.wordLimit]
          omega
        · split at h <;> cases h
      · split at h
        · simp only [Option.some.injEq, Number.integer.injEq] at h
          simp only [Readable, IsWord]
          omega
        · split at h <;> cases h
    · split at h <;> cases h

def Yields {α : Type} (read? : List Char → Option (α × List Char)) (p : α → Prop) : Prop :=
  ∀ cs x rest, read? cs = some (x, rest) → p x

variable {α : Type} {p : α → Prop} {read? : List Char → Option (α × List Char)}

theorem Yields.unsigned (negative : Bool) :
    Yields (unsigned? negative) fun n ↦ ∀ m ∈ n, Readable m := by
  intro cs n rest h
  obtain ⟨⟨whole, cs⟩, -, h⟩ := Option.bind_eq_some_iff.mp h
  obtain ⟨⟨fraction, cs⟩, -, h⟩ := Option.bind_eq_some_iff.mp h
  obtain ⟨⟨exponent, cs⟩, -, h⟩ := Option.bind_eq_some_iff.mp h
  obtain ⟨rfl, rfl⟩ := Prod.mk.inj (Option.some.inj h)
  exact fun m hm ↦ readable_of_numberValue hm

theorem Yields.number : Yields number? fun n ↦ ∀ m ∈ n, Readable m := by
  intro cs n rest h
  unfold number? at h
  split at h
  · exact Yields.unsigned true _ _ _ h
  · exact Yields.unsigned false _ _ _ h

theorem Yields.items (h : Yields read? p) (close : Char) (fuel : Nat) :
    Yields (items? close read? fuel) fun items ↦ ∀ item ∈ items, p item := by
  induction fuel with
  | zero =>
    intro cs items rest hread
    cases hread
  | succ fuel ih =>
    intro cs items rest hread
    obtain ⟨⟨first, cs⟩, hfirst, hread⟩ := Option.bind_eq_some_iff.mp hread
    have hfirst := h _ _ _ hfirst
    dsimp only at hread
    split at hread
    · obtain ⟨⟨more, cs⟩, hmore, hread⟩ := Option.bind_eq_some_iff.mp hread
      obtain ⟨rfl, rfl⟩ := Prod.mk.inj (Option.some.inj hread)
      simpa using ⟨hfirst, ih _ _ _ hmore⟩
    · split at hread
      · obtain ⟨rfl, rfl⟩ := Prod.mk.inj (Option.some.inj hread)
        simpa using hfirst
      · cases hread
    · cases hread

theorem Yields.sequence (h : Yields read? p) (close : Char) (fuel : Nat) :
    Yields (sequence? close read? fuel) fun items ↦ ∀ item ∈ items, p item := by
  intro cs items rest hread
  rw [sequence?] at hread
  split at hread
  · split at hread
    · obtain ⟨rfl, rfl⟩ := Prod.mk.inj (Option.some.inj hread)
      simp
    · exact h.items close fuel _ _ _ hread
  · cases hread

theorem Yields.member (h : Yields read? p) : Yields (member? read?) fun member ↦ p member.2 := by
  intro cs member rest hread
  rw [member?] at hread
  split at hread
  · obtain ⟨⟨name, cs⟩, -, hread⟩ := Option.bind_eq_some_iff.mp hread
    dsimp only at hread
    split at hread
    · obtain ⟨⟨value, cs⟩, hvalue, hread⟩ := Option.bind_eq_some_iff.mp hread
      obtain ⟨rfl, rfl⟩ := Prod.mk.inj (Option.some.inj hread)
      exact h _ _ _ hvalue
    · cases hread
  · cases hread

theorem Yields.tree (fuel : Nat) : Yields (tree? fuel) Tree.Readable := by
  induction fuel with
  | zero =>
    intro cs tree rest h
    cases h
  | succ fuel ih =>
    intro cs tree rest h
    rw [tree?] at h
    split at h
    · obtain ⟨rfl, -⟩ := Prod.mk.inj (Option.some.inj h)
      exact .leaf (by simp [Scalar.Readable])
    · obtain ⟨rfl, -⟩ := Prod.mk.inj (Option.some.inj h)
      exact .leaf (by simp [Scalar.Readable])
    · obtain ⟨rfl, -⟩ := Prod.mk.inj (Option.some.inj h)
      exact .leaf (by simp [Scalar.Readable])
    · obtain ⟨⟨value, cs⟩, -, h⟩ := Option.bind_eq_some_iff.mp h
      obtain ⟨rfl, -⟩ := Prod.mk.inj (Option.some.inj h)
      exact .leaf (by simp [Scalar.Readable])
    · obtain ⟨⟨items, cs⟩, hitems, h⟩ := Option.bind_eq_some_iff.mp h
      obtain ⟨rfl, -⟩ := Prod.mk.inj (Option.some.inj h)
      exact .array (ih.sequence ']' fuel _ _ _ hitems)
    · obtain ⟨⟨members, cs⟩, hmembers, h⟩ := Option.bind_eq_some_iff.mp h
      obtain ⟨rfl, -⟩ := Prod.mk.inj (Option.some.inj h)
      exact .object (ih.member.sequence '\x7d' fuel _ _ _ hmembers)
    · obtain ⟨⟨n, cs⟩, hn, h⟩ := Option.bind_eq_some_iff.mp h
      obtain ⟨rfl, -⟩ := Prod.mk.inj (Option.some.inj h)
      refine .leaf fun s hs ↦ ?_
      obtain ⟨m, hm, rfl⟩ := Option.map_eq_some_iff.mp hs
      exact Yields.number _ _ _ hn m hm

end Reader

namespace Tree

variable {tree : Tree} {json : Json}

theorem readable_of_ofText? {text : String} (h : ofText? text = some tree) : tree.Readable := by
  obtain ⟨⟨found, cs⟩, hfound, h⟩ := Option.bind_eq_some_iff.mp h
  dsimp only at h
  split at h
  · exact Option.some.inj h ▸ Reader.Yields.tree _ _ _ _ hfound
  · cases h

theorem value?_toTree_object {members : List (String × Json)} {depth : Nat}
    (hnodup : (members.map Prod.fst).Nodup)
    (h : ∀ member ∈ members, member.2.toTree.value? depth = some member.2) :
    (Json.object members).toTree.value? (depth + 1) = some (.object members) := by
  have hmembers : members.mapM
      ((fun member : Option String × Tree ↦ do return (← member.1, ← member.2.value? depth)) ∘
        fun member ↦ (some member.1, member.2.toTree)) = some members := by
    refine mapM_some_self fun member hmember ↦ ?_
    simp [h member hmember]
  simp only [Option.pure_def, Option.bind_eq_bind] at hmembers
  simp [Json.toTree, Json.toTreeMembers_eq_map, Tree.value?, hmembers,
    Record.ofList_of_nodup hnodup]

/-- A value that is spelled is readable, and its own text spells it again. -/
theorem Readable.value? (h : tree.Readable) {depth : Nat} (hvalue : tree.value? depth = some json) :
    json.Readable ∧ json.toTree.value? depth = some json := by
  induction depth generalizing tree json with
  | zero =>
    cases h with
    | @leaf value h =>
      obtain ⟨s, hs, rfl⟩ := Option.map_eq_some_iff.mp hvalue
      exact ⟨.scalar (h s hs), rfl⟩
    | array => cases hvalue
    | object => cases hvalue
  | succ depth ih =>
    cases h with
    | @leaf value h =>
      obtain ⟨s, hs, rfl⟩ := Option.map_eq_some_iff.mp hvalue
      exact ⟨.scalar (h s hs), rfl⟩
    | @array items h =>
      obtain ⟨found, hfound, rfl⟩ := Option.map_eq_some_iff.mp hvalue
      have hitems : ∀ item ∈ found, item.Readable ∧ item.toTree.value? depth = some item := by
        intro item hitem
        obtain ⟨tree, htree, htree'⟩ := exists_of_mapM_eq_some hfound item hitem
        exact ih (h tree htree) htree'
      have hagain : found.mapM ((fun tree : Tree ↦ tree.value? depth) ∘ Json.toTree) = some found :=
        mapM_some_self fun item hitem ↦ (hitems item hitem).2
      refine ⟨.array fun item hitem ↦ (hitems item hitem).1, ?_⟩
      simp [Json.toTree, Json.toTrees_eq_map, Tree.value?, hagain]
    | @object members h =>
      obtain ⟨found, hfound, hvalue⟩ := Option.bind_eq_some_iff.mp hvalue
      obtain rfl := Option.some.inj hvalue
      obtain ⟨hnodup, hmem⟩ := Record.ofList_mem found
      have hmembers : ∀ member ∈ found,
          member.2.Readable ∧ member.2.toTree.value? depth = some member.2 := by
        intro member hmember
        obtain ⟨⟨name?, tree⟩, htree, hone⟩ := exists_of_mapM_eq_some hfound member hmember
        obtain ⟨name, -, hone⟩ := Option.bind_eq_some_iff.mp hone
        obtain ⟨json, hjson, hone⟩ := Option.bind_eq_some_iff.mp hone
        obtain rfl := Option.some.inj hone
        exact ih (h _ htree) hjson
      exact ⟨.object fun member hmember ↦ (hmembers member (hmem member hmember)).1,
        value?_toTree_object hnodup fun member hmember ↦ (hmembers member (hmem member hmember)).2⟩

theorem Readable.fields? (h : tree.Readable) {names : List String} {fields : List (Option Tree)}
    (hfields : tree.fields? names = some fields) {field : Tree} (hfield : some field ∈ fields) :
    field.Readable := by
  cases h with
  | leaf h => cases hfields
  | @array items h =>
    rw [Tree.fields?] at hfields
    split at hfields
    · obtain rfl := Option.some.inj hfields
      rcases List.mem_append.mp hfield with hitem | hnone
      · obtain ⟨item, hitem, heq⟩ := List.mem_map.mp hitem
        exact Option.some.inj heq ▸ h item hitem
      · cases (List.mem_replicate.mp hnone).2
    · cases hfields
  | @object members h =>
    obtain ⟨named, hnamed, hfields⟩ := Option.bind_eq_some_iff.mp hfields
    obtain ⟨name, -, hname⟩ := exists_of_mapM_eq_some hfields _ hfield
    have hmem : ∃ member ∈ named, member.2 = field := by
      rw [field?] at hname
      split at hname
      · cases hname
      · rename_i member hone
        have hmember : member ∈ named.filter fun member ↦ member.1 == name := by simp [hone]
        exact ⟨member, (List.mem_filter.mp hmember).1, Option.some.inj (Option.some.inj hname)⟩
      · cases hname
    obtain ⟨member, hmember, rfl⟩ := hmem
    obtain ⟨⟨name?, tree⟩, htree, hone⟩ := exists_of_mapM_eq_some hnamed member hmember
    obtain ⟨name, -, hone⟩ := Option.bind_eq_some_iff.mp hone
    obtain rfl := Option.some.inj hone
    exact h _ htree

end Tree

end Json

end TableStore
