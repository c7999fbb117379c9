import TableStore.Proofs.Json.Text

namespace TableStore

namespace Json

open Reader (EndsNumber string?_text endsNumber_comma)

theorem Scalar.Readable.text_append_inj {s s' : Scalar} (h : s.Readable) (h' : s'.Readable)
    {rest rest' : List Char} (hrest : EndsNumber rest) (hrest' : EndsNumber rest')
    (heq : s.text ++ rest = s'.text ++ rest') : s = s' ∧ rest = rest' := by
  have hread := h.tree?_text 0 hrest
  rw [heq, h'.tree?_text 0 hrest'] at hread
  obtain ⟨hleaf, hrest⟩ := Prod.mk.inj (Option.some.inj hread)
  exact ⟨(Option.some.inj (Tree.leaf.inj hleaf)).symm, hrest.symm⟩

theorem stringText_append_inj {s s' : String} {rest rest' : List Char}
    (heq : stringText s ++ rest = stringText s' ++ rest') : s = s' ∧ rest = rest' := by
  have htail : ∀ (s : String) (rest : List Char),
      stringText s ++ rest = '"' :: (s.toList.flatMap escape ++ '"' :: rest) := by
    simp [stringText]
  rw [htail, htail] at heq
  have hread := string?_text s rest
  rw [List.tail_eq_of_cons_eq heq, string?_text s' rest'] at hread
  obtain ⟨hstring, hrest⟩ := Prod.mk.inj (Option.some.inj hread)
  exact ⟨(Option.some.inj hstring).symm, hrest.symm⟩

def IsCell (member : String × Json) : Prop := ∃ s : Scalar, member.2 = .scalar s ∧ s.Readable

theorem endsNumber_compactMembers (members : List (String × Json)) :
    EndsNumber (compactMembers members) := by
  cases members with
  | nil => simp [compactMembers, EndsNumber]
  | cons member rest => exact endsNumber_comma _

theorem member_append_inj {member member' : String × Json} (h : IsCell member) (h' : IsCell member')
    {rest rest' : List (String × Json)}
    (heq : stringText member.1 ++ ':' :: (compact member.2 ++ compactMembers rest) =
      stringText member'.1 ++ ':' :: (compact member'.2 ++ compactMembers rest')) :
    member = member' ∧ compactMembers rest = compactMembers rest' := by
  obtain ⟨name, json⟩ := member
  obtain ⟨name', json'⟩ := member'
  obtain ⟨s, rfl, hs⟩ := h
  obtain ⟨s', rfl, hs'⟩ := h'
  obtain ⟨rfl, heq⟩ := stringText_append_inj heq
  obtain ⟨rfl, hrest⟩ := hs.text_append_inj hs' (endsNumber_compactMembers rest)
    (endsNumber_compactMembers rest') (List.tail_eq_of_cons_eq heq)
  exact ⟨rfl, hrest⟩

theorem compactMembers_inj {members members' : List (String × Json)}
    (h : ∀ member ∈ members, IsCell member) (h' : ∀ member ∈ members', IsCell member)
    (heq : compactMembers members = compactMembers members') : members = members' := by
  induction members generalizing members' with
  | nil =>
    cases members' with
    | nil => rfl
    | cons member' rest' => exact absurd (List.head_eq_of_cons_eq heq) (by decide)
  | cons member rest ih =>
    cases members' with
    | nil => exact absurd (List.head_eq_of_cons_eq heq) (by decide)
    | cons member' rest' =>
      obtain ⟨hmember, hrest⟩ := List.forall_mem_cons.mp h
      obtain ⟨hmember', hrest'⟩ := List.forall_mem_cons.mp h'
      obtain ⟨rfl, hafter⟩ := member_append_inj hmember hmember' (List.tail_eq_of_cons_eq heq)
      rw [ih hrest hrest' hafter]

/-- Objects of cells with one text are one object. -/
theorem compactText_object_inj {record record' : Record} (h : ∀ member ∈ record, IsCell member)
    (h' : ∀ member ∈ record', IsCell member)
    (heq : (Json.object record).compactText = (Json.object record').compactText) :
    record = record' := by
  have htext : compact (.object record) = compact (.object record') := String.ofList_injective heq
  cases record with
  | nil =>
    cases record' with
    | nil => rfl
    | cons member' rest' =>
      have hhead := List.head_eq_of_cons_eq (List.tail_eq_of_cons_eq htext)
      exact absurd hhead (by decide)
  | cons member rest =>
    cases record' with
    | nil =>
      have hhead := List.head_eq_of_cons_eq (List.tail_eq_of_cons_eq htext)
      exact absurd hhead (by decide)
    | cons member' rest' =>
      obtain ⟨hmember, hrest⟩ := List.forall_mem_cons.mp h
      obtain ⟨hmember', hrest'⟩ := List.forall_mem_cons.mp h'
      obtain ⟨rfl, hafter⟩ := member_append_inj hmember hmember' (List.tail_eq_of_cons_eq htext)
      rw [compactMembers_inj hrest hrest' hafter]

end Json

end TableStore
