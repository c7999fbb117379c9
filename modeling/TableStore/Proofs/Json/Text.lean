import TableStore.Proofs.Json.Number

namespace TableStore.Json

open Reader

namespace Reader

def Piece.ofChar (c : Char) : Piece :=
  if c.toNat < 32 ∧ c ∉ ['\x08', '\t', '\n', '\x0c', '\r'] then .unit c.toNat else .plain c

theorem hexDigit?_digitChar {n : Nat} (hn : n < 16) : hexDigit? (Nat.digitChar n) = some n := by
  revert n
  decide

theorem pieces?_short {mark c : Char} (hmark : mark ≠ 'u') (hc : shortEscape? mark = some c)
    (cs : List Char) :
    pieces? ('\\' :: mark :: cs) = (pieces? cs).map fun r ↦ (.plain c :: r.1, r.2) := by
  rw [pieces?.eq_4 mark cs fun _ _ _ _ _ h _ ↦ hmark h, hc]
  cases pieces? cs <;> rfl

theorem pieces?_plain {c : Char} (hquote : c ≠ '"') (hslash : c ≠ '\\') (hcontrol : ¬c.toNat < 32)
    (cs : List Char) : pieces? (c :: cs) = (pieces? cs).map fun r ↦ (.plain c :: r.1, r.2) := by
  rw [pieces?.eq_5 c cs hquote (fun _ _ _ _ _ h _ ↦ hslash h) fun _ _ h _ ↦ hslash h,
    if_neg hcontrol]
  cases pieces? cs <;> rfl

theorem pieces?_unit {n : Nat} (hn : n < 32) (cs : List Char) :
    pieces? ('\\' :: 'u' :: '0' :: '0' :: Nat.digitChar (n / 16) :: Nat.digitChar (n % 16) :: cs) =
      (pieces? cs).map fun r ↦ (.unit n :: r.1, r.2) := by
  have hzero : hexDigit? '0' = some 0 := by decide
  rw [pieces?.eq_3, hzero, hexDigit?_digitChar (by omega : n / 16 < 16),
    hexDigit?_digitChar (by omega : n % 16 < 16)]
  have hcode : ((0 * 16 + 0) * 16 + n / 16) * 16 + n % 16 = n := by omega
  simp only [Option.bind_eq_bind, Option.bind_some, hcode]
  cases pieces? cs <;> rfl

theorem pieces?_escape (c : Char) (cs : List Char) :
    pieces? (escape c ++ cs) = (pieces? cs).map fun r ↦ (Piece.ofChar c :: r.1, r.2) := by
  by_cases hshort : c ∈ ['"', '\\', '\x08', '\t', '\n', '\x0c', '\r']
  · simp only [List.mem_cons, List.not_mem_nil, or_false] at hshort
    rcases hshort with rfl | rfl | rfl | rfl | rfl | rfl | rfl <;>
      exact pieces?_short (by decide) (by decide) cs
  · simp only [List.mem_cons, List.not_mem_nil, or_false, not_or] at hshort
    obtain ⟨hquote, hslash, hb, ht, hn, hf, hr⟩ := hshort
    by_cases hcontrol : c.toNat < 32
    · have hpiece : Piece.ofChar c = .unit c.toNat := by
        simp [Piece.ofChar, hcontrol, hb, ht, hn, hf, hr]
      simp only [escape, hquote, hslash, hb, ht, hn, hf, hr, hcontrol, if_true, if_false, hpiece]
      exact pieces?_unit hcontrol cs
    · have hpiece : Piece.ofChar c = .plain c := by simp [Piece.ofChar, hcontrol]
      simp only [escape, hquote, hslash, hb, ht, hn, hf, hr, hcontrol, if_false, hpiece]
      exact pieces?_plain hquote hslash hcontrol cs

theorem pieces?_flatMap (s rest : List Char) :
    pieces? (s.flatMap escape ++ '"' :: rest) = some (s.map Piece.ofChar, rest) := by
  induction s with
  | nil => rfl
  | cons c s ih => rw [List.flatMap_cons, List.append_assoc, pieces?_escape, ih]; rfl

theorem characters?_ofChar (c : Char) (pieces : List Piece) :
    characters? (Piece.ofChar c :: pieces) = (characters? pieces).map (c :: ·) := by
  by_cases hunit : c.toNat < 32 ∧ c ∉ ['\x08', '\t', '\n', '\x0c', '\r']
  · have hhigh : isHigh c.toNat = false := by
      simp only [isHigh, Bool.and_eq_false_iff, decide_eq_false_iff_not]
      omega
    have hlow : isLow c.toNat = false := by
      simp only [isLow, Bool.and_eq_false_iff, decide_eq_false_iff_not]
      omega
    rw [Piece.ofChar, if_pos hunit]
    match pieces with
    | .unit low :: rest =>
      rw [characters?.eq_3]
      simp only [hhigh, hlow, Bool.false_and, Bool.false_or, Bool.false_eq_true, if_false,
        Char.ofNat_toNat]
      cases characters? (.unit low :: rest) <;> rfl
    | [] =>
      rw [characters?.eq_4 _ _ (by simp)]
      simp only [hhigh, hlow, Bool.or_false, Bool.false_eq_true, if_false, Char.ofNat_toNat]
      rfl
    | .plain d :: rest =>
      rw [characters?.eq_4 _ _ (by simp)]
      simp only [hhigh, hlow, Bool.or_false, Bool.false_eq_true, if_false, Char.ofNat_toNat]
      cases characters? (.plain d :: rest) <;> rfl
  · rw [Piece.ofChar, if_neg hunit, characters?]
    cases characters? pieces <;> rfl

theorem characters?_map (s : List Char) : characters? (s.map Piece.ofChar) = some s := by
  induction s with
  | nil => rfl
  | cons c s ih => rw [List.map_cons, characters?_ofChar, ih]; rfl

theorem string?_text (s : String) (rest : List Char) :
    string? (s.toList.flatMap escape ++ '"' :: rest) = some (some s, rest) := by
  simp [string?, pieces?_flatMap, characters?_map]

theorem skipGap_newline (indent : Nat) (cs : List Char) :
    skipGap (newline indent ++ cs) = skipGap cs := by
  have hgap : ∀ c ∈ newline indent, isGap c = true := by
    intro c hc
    simp only [newline, List.mem_cons, List.mem_replicate] at hc
    rcases hc with rfl | ⟨-, rfl⟩ <;> rfl
  rw [skipGap, List.dropWhile_append_of_pos hgap, skipGap]

theorem skipGap_cons {c : Char} (hc : isGap c = false) (cs : List Char) :
    skipGap (c :: cs) = c :: cs := by
  simp [skipGap, hc]

theorem tree?_newline (fuel indent : Nat) (cs : List Char) :
    tree? fuel (newline indent ++ cs) = tree? fuel cs := by
  cases fuel with
  | zero => rfl
  | succ fuel => rw [tree?, tree?, skipGap_newline]

theorem tree?_blank (fuel : Nat) (cs : List Char) : tree? fuel (' ' :: cs) = tree? fuel cs := by
  cases fuel with
  | zero => rfl
  | succ fuel => rfl

section

variable {α β : Type} {close : Char} {item? : List Char → Option (α × List Char)}

/-- The text after the first entry of a list: each further one on a line of its own, and the end. -/
def entriesText (close : Char) (indent : Nat) (text : β → List Char) : List β → List Char
  | [] => newline indent ++ [close]
  | entry :: rest =>
    ',' :: (newline (indent + 2) ++ text entry ++ entriesText close indent text rest)

theorem endsNumber_newline (indent : Nat) (cs : List Char) : EndsNumber (newline indent ++ cs) := by
  simp [EndsNumber, newline]

theorem endsNumber_comma (cs : List Char) : EndsNumber (',' :: cs) := by simp [EndsNumber]

theorem endsNumber_entriesText (indent : Nat) (text : β → List Char) (entries : List β)
    (cs : List Char) : EndsNumber (entriesText close indent text entries ++ cs) := by
  cases entries with
  | nil =>
    rw [entriesText, List.append_assoc]
    exact endsNumber_newline _ _
  | cons entry rest => exact endsNumber_comma _

theorem items?_entriesText {indent fuel : Nat} {text : β → List Char} {read : β → α}
    {entry : β} {entries : List β} (hclose : isGap close = false) (hcomma : close ≠ ',')
    (hread : ∀ other ∈ entry :: entries, ∀ rest, EndsNumber rest →
      item? (newline (indent + 2) ++ (text other ++ rest)) = some (read other, rest))
    (hfuel : entries.length < fuel) (rest : List Char) :
    items? close item? fuel
        (newline (indent + 2) ++ (text entry ++ (entriesText close indent text entries ++ rest))) =
      some ((entry :: entries).map read, rest) := by
  induction entries generalizing entry fuel with
  | nil =>
    cases fuel with
    | zero => simp at hfuel
    | succ fuel =>
      rw [items?, hread entry (by simp) _ (endsNumber_entriesText _ _ _ _)]
      simp only [entriesText, List.append_assoc, Option.bind_eq_bind, Option.bind_some,
        skipGap_newline,
        List.cons_append, List.nil_append, skipGap_cons hclose, if_true, List.map_cons, List.map_nil]
  | cons next entries ih =>
    cases fuel with
    | zero => simp at hfuel
    | succ fuel =>
      have hrest := @ih fuel next
        (fun other hother ↦ hread other (List.mem_cons_of_mem _ hother)) (by simpa using hfuel)
      rw [items?, hread entry (by simp) _ (endsNumber_entriesText _ _ _ _)]
      simp only [entriesText, List.append_assoc, Option.bind_eq_bind, Option.bind_some,
        List.cons_append, skipGap_cons (by rfl : isGap ',' = false), hrest]
      simp

theorem sequence?_entriesText {indent fuel : Nat} {text : β → List Char} {read : β → α}
    {entry : β} {entries : List β} (hclose : isGap close = false) (hcomma : close ≠ ',')
    (hread : ∀ other ∈ entry :: entries, ∀ rest, EndsNumber rest →
      item? (newline (indent + 2) ++ (text other ++ rest)) = some (read other, rest))
    (hhead : ∀ rest, EndsNumber rest →
      ∃ c cs, text entry ++ rest = c :: cs ∧ isGap c = false ∧ c ≠ close)
    (hfuel : entries.length < fuel) (rest : List Char) :
    sequence? close item? fuel
        (newline (indent + 2) ++ (text entry ++ (entriesText close indent text entries ++ rest))) =
      some ((entry :: entries).map read, rest) := by
  obtain ⟨c, cs, htext, hgap, hne⟩ :=
    hhead _ (@endsNumber_entriesText β close indent text entries rest)
  have hitems := items?_entriesText hclose hcomma hread hfuel rest
  rw [sequence?, skipGap_newline, htext, skipGap_cons hgap]
  simp only [if_neg hne]
  rw [← htext]
  exact hitems

end

end Reader

mutual

def toTree : Json → Tree
  | .scalar s => .leaf (some s)
  | .array items => .array (toTrees items)
  | .object members => .object (toTreeMembers members)

def toTrees : List Json → List Tree
  | [] => []
  | item :: rest => item.toTree :: toTrees rest

def toTreeMembers : List (String × Json) → List (Option String × Tree)
  | [] => []
  | (name, json) :: rest => (some name, json.toTree) :: toTreeMembers rest

end

theorem toTrees_eq_map (items : List Json) : toTrees items = items.map toTree := by
  induction items with
  | nil => rfl
  | cons item rest ih => rw [toTrees, ih, List.map_cons]

theorem toTreeMembers_eq_map (members : List (String × Json)) :
    toTreeMembers members = members.map fun member ↦ (some member.1, member.2.toTree) := by
  induction members with
  | nil => rfl
  | cons member rest ih =>
    obtain ⟨name, json⟩ := member
    rw [toTreeMembers, ih, List.map_cons]

def Scalar.Readable : Scalar → Prop
  | .number n => Reader.Readable n
  | _ => True

/-- A value of which every number is read back as it is. -/
inductive Readable : Json → Prop
  | scalar {s : Scalar} (h : s.Readable) : Readable (.scalar s)
  | array {items : List Json} (h : ∀ item ∈ items, Readable item) : Readable (.array items)
  | object {members : List (String × Json)} (h : ∀ member ∈ members, Readable member.2) :
    Readable (.object members)

def memberText (indent : Nat) (member : String × Json) : List Char :=
  stringText member.1 ++ ':' :: ' ' :: pretty (indent + 2) member.2

theorem prettyItems_eq (indent : Nat) (items : List Json) :
    prettyItems indent items = entriesText ']' indent (pretty (indent + 2)) items := by
  induction items with
  | nil => rfl
  | cons item rest ih => rw [prettyItems, entriesText, ih]

theorem prettyMembers_eq (indent : Nat) (members : List (String × Json)) :
    prettyMembers indent members = entriesText '\x7d' indent (memberText indent) members := by
  induction members with
  | nil => rfl
  | cons member rest ih =>
    obtain ⟨name, json⟩ := member
    rw [prettyMembers, entriesText, ih]
    simp [memberText]

theorem length_entriesText {β : Type} (close : Char) (indent : Nat) (text : β → List Char)
    (entries : List β) : entries.length < (entriesText close indent text entries).length ∧
      ∀ entry ∈ entries, (text entry).length < (entriesText close indent text entries).length := by
  induction entries with
  | nil => simp [entriesText, newline]
  | cons entry rest ih =>
    simp only [entriesText, List.length_cons, List.length_append, List.mem_cons]
    refine ⟨by omega, fun other hother ↦ ?_⟩
    rcases hother with rfl | hother
    · omega
    · have := ih.2 other hother
      omega

theorem isGap_numeral {c : Char} (hc : c = '-' ∨ c.isDigit = true) : isGap c = false := by
  rw [Bool.eq_false_iff]
  intro hgap
  simp only [isGap, Bool.or_eq_true, decide_eq_true_eq] at hgap
  rcases hc with rfl | hc
  · exact absurd hgap (by decide)
  · rcases hgap with ((rfl | rfl) | rfl) | rfl <;> exact absurd hc (by decide)

theorem tree?_of_number? {fuel : Nat} {cs rest : List Char} {n : Option Number}
    (h : number? cs = some (n, rest)) :
    tree? (fuel + 1) cs = some (.leaf (n.map .number), rest) := by
  obtain ⟨c, cs', rfl, hc⟩ := head_of_number? h
  have hother : ∀ other tail, c :: cs' = other :: tail →
      ¬(other = '-' ∨ other.isDigit = true) → False := by
    intro other tail heq hne
    exact hne ((List.cons.inj heq).1 ▸ hc)
  rw [tree?, skipGap_cons (isGap_numeral hc)]
  split
  case h_7 => simp [h]
  all_goals
    rename_i heq
    exact (hother _ _ heq (by decide)).elim

theorem Scalar.Readable.tree?_text {s : Scalar} (h : s.Readable) (fuel : Nat) {rest : List Char}
    (hr : EndsNumber rest) : tree? (fuel + 1) (s.text ++ rest) = some (.leaf (some s), rest) := by
  cases s with
  | null => rfl
  | bool b => cases b <;> rfl
  | number n => exact tree?_of_number? (number?_text h hr)
  | string s =>
    rw [Scalar.text, stringText, List.cons_append, List.append_assoc, tree?, skipGap_cons rfl]
    simp [string?_text]

theorem pretty_array (indent : Nat) (item : Json) (rest : List Json) :
    pretty indent (.array (item :: rest)) =
      '[' :: (newline (indent + 2) ++ (pretty (indent + 2) item ++
        entriesText ']' indent (pretty (indent + 2)) rest)) := by
  rw [pretty, prettyItems_eq, List.append_assoc]

theorem pretty_object (indent : Nat) (member : String × Json) (rest : List (String × Json)) :
    pretty indent (.object (member :: rest)) =
      '\x7b' :: (newline (indent + 2) ++ (memberText indent member ++
        entriesText '\x7d' indent (memberText indent) rest)) := by
  obtain ⟨name, json⟩ := member
  rw [pretty, prettyMembers_eq]
  simp [memberText]

theorem Readable.head_pretty {json : Json} (h : json.Readable) (indent : Nat) (rest : List Char)
    (hr : EndsNumber rest) :
    ∃ c cs, json.pretty indent ++ rest = c :: cs ∧ isGap c = false ∧ c ≠ ']' := by
  cases h with
  | @scalar s h =>
    cases s with
    | null => exact ⟨_, _, rfl, rfl, by decide⟩
    | bool b => cases b <;> exact ⟨_, _, rfl, rfl, by decide⟩
    | number n =>
      obtain ⟨c, cs, hcs, hc⟩ := head_of_number? (number?_text h hr)
      refine ⟨c, cs, hcs, isGap_numeral hc, ?_⟩
      rintro rfl
      exact absurd hc (by decide)
    | string s => exact ⟨_, _, rfl, rfl, by decide⟩
  | @array items _ => cases items <;> exact ⟨_, _, rfl, rfl, by decide⟩
  | @object members _ => cases members <;> exact ⟨_, _, rfl, rfl, by decide⟩

theorem memberText_append (indent : Nat) (member : String × Json) (rest : List Char) :
    memberText indent member ++ rest = '"' :: (member.1.toList.flatMap escape ++
      '"' :: ':' :: ' ' :: (pretty (indent + 2) member.2 ++ rest)) := by
  simp [memberText, stringText]

theorem member?_memberText {fuel indent : Nat} {member : String × Json} {rest : List Char}
    (h : tree? fuel (pretty (indent + 2) member.2 ++ rest) = some (member.2.toTree, rest)) :
    member? (tree? fuel) (newline (indent + 2) ++ (memberText indent member ++ rest)) =
      some ((some member.1, member.2.toTree), rest) := by
  rw [member?, skipGap_newline, memberText_append, skipGap_cons rfl]
  simp [string?_text, skipGap_cons (by rfl : isGap ':' = false), tree?_blank, h]

/-- A value is read back from its text, whatever follows it. -/
theorem Readable.tree?_pretty {json : Json} (h : json.Readable) {indent fuel : Nat}
    {rest : List Char} (hfuel : (json.pretty indent).length ≤ fuel) (hr : EndsNumber rest) :
    tree? fuel (json.pretty indent ++ rest) = some (json.toTree, rest) := by
  induction h generalizing indent fuel rest with
  | @scalar s h =>
    cases fuel with
    | zero =>
      obtain ⟨c, cs, hcs, -⟩ := (Readable.scalar h).head_pretty indent [] (by simp [EndsNumber])
      rw [List.append_nil] at hcs
      simp [hcs] at hfuel
    | succ fuel => exact h.tree?_text fuel hr
  | @array items h ih =>
    cases items with
    | nil =>
      cases fuel with
      | zero => simp [pretty] at hfuel
      | succ fuel => rfl
    | cons item items =>
      rw [pretty_array] at hfuel ⊢
      simp only [List.length_cons, List.length_append] at hfuel
      obtain ⟨hcount, hlength⟩ := length_entriesText ']' indent (pretty (indent + 2)) items
      cases fuel with
      | zero => omega
      | succ fuel =>
        have hitems : sequence? ']' (tree? fuel) fuel (newline (indent + 2) ++
            (pretty (indent + 2) item ++ (entriesText ']' indent (pretty (indent + 2)) items ++ rest))) =
              some ((item :: items).map toTree, rest) := sequence?_entriesText
          rfl (by decide) (fun other hother rest hr ↦ by
            rw [tree?_newline]
            refine ih other hother ?_ hr
            rcases List.mem_cons.mp hother with rfl | hother
            · omega
            · have := hlength other hother
              omega)
          (fun rest hr ↦ (h item (by simp)).head_pretty (indent + 2) rest hr) (by omega) rest
        rw [List.cons_append, tree?, skipGap_cons rfl]
        simp [hitems, toTree, toTrees_eq_map]
  | @object members h ih =>
    cases members with
    | nil =>
      cases fuel with
      | zero => simp [pretty] at hfuel
      | succ fuel => rfl
    | cons member members =>
      rw [pretty_object] at hfuel ⊢
      simp only [List.length_cons, List.length_append] at hfuel
      obtain ⟨hcount, hlength⟩ := length_entriesText '\x7d' indent (memberText indent) members
      have hshort : ∀ other ∈ member :: members, (pretty (indent + 2) other.2).length < fuel := by
        intro other hother
        have htext : (pretty (indent + 2) other.2).length ≤ (memberText indent other).length := by
          simp only [memberText, List.length_append, List.length_cons]
          omega
        rcases List.mem_cons.mp hother with rfl | hother
        · omega
        · have := hlength other hother
          omega
      cases fuel with
      | zero => omega
      | succ fuel =>
        have hitems : sequence? '\x7d' (member? (tree? fuel)) fuel (newline (indent + 2) ++
            (memberText indent member ++ (entriesText '\x7d' indent (memberText indent) members ++ rest))) =
              some ((member :: members).map fun member ↦ (some member.1, member.2.toTree), rest) :=
          sequence?_entriesText rfl (by decide)
          (fun other hother rest hr ↦ member?_memberText
            (ih other hother (Nat.le_of_lt_succ (hshort other hother)) hr))
          (fun rest _ ↦ ⟨_, _, memberText_append indent member rest, rfl, by decide⟩) (by omega) rest
        rw [List.cons_append, tree?, skipGap_cons rfl]
        simp [hitems, toTree, toTreeMembers_eq_map]

theorem Readable.ofText?_prettyText {json : Json} (h : json.Readable) :
    Tree.ofText? json.prettyText = some json.toTree := by
  have htree : tree? ((json.pretty 0).length + 1) (json.pretty 0 ++ []) = some (json.toTree, []) :=
    h.tree?_pretty (by omega) (by simp [EndsNumber])
  rw [List.append_nil] at htree
  have hchars : json.prettyText.toList = json.pretty 0 := String.toList_ofList
  rw [Tree.ofText?, hchars]
  simp only [htree, Option.bind_eq_bind, Option.bind_some, skipGap, List.dropWhile_nil, if_true]

end TableStore.Json
