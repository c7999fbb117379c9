import TableStore.Proofs.Statement.Forms
import TableStore.Proofs.Statement.Guidance.Token

namespace TableStore

namespace Phrase

open Expectation (Settle)

variable {α β : Type} {item : Phrase α} {opens : α → Token → Prop} {last : Token}
  {tokens : List Token} {pre : Token → Prop}

/-- A reader of the items of a list that ends at a token. What comes after an item has had the tokens
looked for with which that item could have gone on. -/
structure Listed (item : Phrase α) (opens : α → Token → Prop) (last : Token) : Prop where
  barred : item.Barred
  sample : ∃ ts a, ∀ t rest, t = .symbol .comma ∨ t = last →
    item (ts ++ t :: rest) = .ok (a, t :: rest)
  guided : ∀ {β : Type} {f : α → Phrase β} {tokens : List Token},
    (∀ a t, t = .symbol .comma ∨ t = last → (f a).GoesOn [] t) →
      (∀ a (rest : List Token), rest.length < tokens.length → (f a).Guided (opens a) rest) →
        (item >>= f).Guided NoToken tokens

theorem further_bind (item : Phrase α) (first : α) (c : List α → Phrase β) :
    further item first >>= c = accept (.symbol .comma) >>= fun found ↦
      if found then separated item >>= fun as ↦ c (first :: as) else c [first] := by
  simp only [further, bind_assoc, apply_ite (· >>= c), pure_bind]

theorem run_further_comma (first : α) (c : List α → Phrase β) (rest : List Token) :
    (further item first >>= c) (.symbol .comma :: rest) =
      (separated item >>= fun as ↦ c (first :: as)) rest := by
  rw [further_bind]
  rfl

theorem run_further_other (first : α) (c : List α → Phrase β) {t : Token} (rest : List Token)
    (ht : t ≠ .symbol .comma) :
    (further item first >>= c) (t :: rest) = c [first] (t :: rest) := by
  rw [further_bind]
  exact run_accept_passed _ ht

namespace Listed

theorem separated_live (h : Listed item opens last) (hlast : last ≠ .symbol .comma)
    {c : List α → Phrase β} (hlive : ∀ as, (c as).GoesOn [] last) :
    (Phrase.separated item >>= c).Live := by
  obtain ⟨ts, a, hrun⟩ := h.sample
  obtain ⟨more, found, hfound⟩ := hlive [a]
  refine ⟨ts ++ last :: more, found, ?_⟩
  rw [separated_eq h.barred, bind_assoc, run_bind, hrun last more (.inr rfl)]
  exact (run_further_other a c more hlast).trans hfound

theorem further_goesOn (h : Listed item opens last) (hlast : last ≠ .symbol .comma)
    {c : List α → Phrase β} (hlive : ∀ as, (c as).GoesOn [] last) (a : α) {t : Token}
    (ht : t = .symbol .comma ∨ t = last) : (further item a >>= c).GoesOn [] t := by
  rcases ht with rfl | rfl
  · obtain ⟨more, found, hfound⟩ := h.separated_live hlast fun as ↦ hlive (a :: as)
    exact ⟨more, found, (run_further_comma a c more).trans hfound⟩
  · obtain ⟨more, found, hfound⟩ := hlive [a]
    exact ⟨more, found, (run_further_other a c more hlast).trans hfound⟩

/-- By induction on how many tokens there are, of which every item takes some. -/
theorem separated (h : Listed item opens last) (hlast : last ≠ .symbol .comma)
    {c : List α → Phrase β} (hlive : ∀ as, (c as).GoesOn [] last)
    (hrest : ∀ as a (rest : List Token), rest.length < tokens.length →
      (c as).Guided (fun k ↦ k = .symbol .comma ∨ opens a k) rest) :
    (Phrase.separated item >>= c).Guided NoToken tokens := by
  induction hlength : tokens.length using Nat.strongRecOn generalizing tokens c with
  | ind n ih =>
    subst hlength
    rw [separated_eq h.barred, bind_assoc]
    refine h.guided (fun a t ht ↦ h.further_goesOn hlast hlive a ht) fun a rest hshort ↦ ?_
    rw [further_bind]
    refine .accept (by simp) (h.separated_live hlast fun as ↦ hlive (a :: as)) ?_
      (hrest [a] a rest hshort)
    intro rest' hrest'
    refine ih _ (by omega) (fun as ↦ hlive (a :: as)) (fun as a' after hafter ↦ ?_) rfl
    exact hrest (a :: as) a' after (by omega)

end Listed

theorem listed_identifier (last : Token) : Listed identifier (fun _ ↦ NoToken) last where
  barred := .identifier
  sample := ⟨[.identifier "x"], "x", fun _ _ _ ↦ rfl⟩
  guided hlive h := .identifier (fun name ↦ (hlive name _ (.inl rfl)).live) h

theorem listed_literal (last : Token) : Listed literal (fun _ ↦ NoToken) last where
  barred := .literal
  sample := ⟨[.keyword .null], .null, fun _ _ _ ↦ rfl⟩
  guided hlive h := .value (fun v ↦ (hlive v _ (.inl rfl)).live) h

theorem listed_change (last : Token) : Listed change (fun _ ↦ NoToken) last where
  barred := .change
  sample := ⟨[.identifier "x", .symbol .equal, .keyword .null], ("x", .null), fun _ _ _ ↦ rfl⟩
  guided {_ f _} hlive h := by
    have hrun : change >>= f = identifier >>= fun column ↦ symbol .equal >>= fun _ ↦
        literal >>= fun v ↦ f (column, v) := by
      simp only [change, bind_assoc, pure_bind]
    rw [hrun]
    have hvalue : ∀ column, (literal >>= fun v ↦ f (column, v)).Live := fun column ↦
      ((literal_goesOn_iff fun v ↦ (hlive (column, v) _ (.inl rfl)).live).mpr
        (rfl : Expectation.literal.covers (.keyword .null) = true)).live
    refine .identifier (fun column ↦ (goesOn_consume (hvalue column)).live)
      fun column rest hrest ↦ ?_
    refine .consume (by simp) (hvalue column) (.single _) fun rest' hrest' ↦ ?_
    refine .value (fun v ↦ (hlive (column, v) _ (.inl rfl)).live) fun v after hafter ↦ ?_
    exact h (column, v) after (by omega)

def OpensName (k : Token) : Prop := k = .keyword .as ∨ ∃ name, k = .identifier name

theorem run_newName_none (f : Option String → Phrase β)
    (h : ¬OpensName (tokens.headD .endOfInput)) : (newName >>= f) tokens = f none tokens := by
  have hhead : tokens.head? ≠ some (.keyword .as) ∧
      ∀ name, tokens.head? ≠ some (.identifier name) := by
    cases tokens with
    | nil => exact ⟨by simp, by simp⟩
    | cons t rest => simpa [OpensName] using h
  rw [run_bind, newName_eq_ok.mpr (.inr ⟨rfl, rfl, hhead⟩)]
  rfl

theorem run_newName_as (f : Option String → Phrase β) (rest : List Token) :
    (newName >>= f) (.keyword .as :: rest) = (identifier >>= fun name ↦ f (some name)) rest := by
  show ((identifier >>= fun name ↦ pure (some name)) >>= f) rest = _
  rw [bind_assoc]
  simp only [pure_bind]

theorem goesOn_newName {f : Option String → Phrase β} (hlive : ∀ name, (f (some name)).Live)
    {k : Token} (hk : OpensName k) : (newName >>= f).GoesOn [] k := by
  rcases hk with rfl | ⟨name, rfl⟩
  · obtain ⟨more, found, hrun⟩ := hlive "x"
    exact ⟨.identifier "x" :: more, found, hrun⟩
  · obtain ⟨more, found, hrun⟩ := hlive name
    exact ⟨more, found, hrun⟩

theorem Guided.newName {f : Option String → Phrase β} (hlive : ∀ name, (f (some name)).Live)
    (h : ∀ name (rest : List Token), rest.length < tokens.length →
      (f (some name)).Guided NoToken rest)
    (hpassed : (f none).Guided (fun k ↦ OpensName k ∨ pre k) tokens) :
    (Phrase.newName >>= f).Guided pre tokens := by
  by_cases hhead : OpensName (tokens.headD .endOfInput)
  · rcases hhead with has | ⟨name, hname⟩
    · obtain ⟨rest, rfl⟩ := eq_cons_of_headD has (by simp)
      refine .next (run_newName_as f) ?_
      exact .identifier hlive fun name rest' hrest' ↦ h name rest' (Nat.lt_succ_of_lt hrest')
    · obtain ⟨rest, rfl⟩ := eq_cons_of_headD hname (by simp)
      exact .next (fun _ ↦ rfl) (h name rest (Nat.lt_succ_self _))
  · refine .same (f none) _ (fun rest hrest ↦ run_newName_none f (hrest ▸ hhead)) (fun k ↦ ?_)
      hpassed
    by_cases hk : OpensName k
    · exact iff_of_true (.inl (goesOn_newName hlive hk)) (.inr (.inl hk))
    · have hrun : ∀ more, (Phrase.newName >>= f) (k :: more) = f none (k :: more) :=
        fun more ↦ run_newName_none f hk
      simp [GoesOn, hrun, hk]

/-- Only where an item has no new name, one could follow. -/
theorem listed_selectItem (last : Token) :
    Listed selectItem (fun item k ↦ item.newName = none ∧ OpensName k) last where
  barred := .selectItem
  sample := ⟨[.identifier "x", .identifier "y"], ⟨"x", some "y"⟩, fun _ _ _ ↦ rfl⟩
  guided {_ f tokens} hlive h := by
    have hrun : selectItem >>= f = identifier >>= fun column ↦ newName >>= fun name? ↦
        f ⟨column, name?⟩ := by
      simp only [selectItem, bind_assoc, pure_bind]
    have hlive' : ∀ a, (f a).Live := fun a ↦ (hlive a _ (.inl rfl)).live
    rw [hrun]
    refine .identifier (fun column ↦ ?_) fun column rest hrest ↦ ?_
    · exact (goesOn_newName (fun name ↦ hlive' ⟨column, some name⟩) (.inl rfl)).live
    · refine .newName (fun name ↦ hlive' ⟨column, some name⟩) (fun name rest' hrest' ↦ ?_) ?_
      · simpa using h ⟨column, some name⟩ rest' (by omega)
      · simpa using h ⟨column, none⟩ rest hrest

theorem Guided.elements (h : Listed item (fun _ ↦ NoToken) (.symbol .rightParen))
    {c : List α → Phrase β} (hlive : ∀ as, (c as).Live)
    (hrest : ∀ as (rest : List Token), rest.length < tokens.length → (c as).Guided NoToken rest) :
    (Phrase.separated item >>= fun as ↦ symbol .rightParen >>= fun _ ↦ c as).Guided
      NoToken tokens := by
  refine h.separated (by simp) (fun as ↦ goesOn_consume (hlive as)) fun as a rest hshort ↦ ?_
  refine .consume (by simp) (hlive as) ⟨⟨_, .inl rfl⟩, _, .element, by simp⟩ fun rest' hrest' ↦ ?_
  exact hrest as rest' (by omega)

theorem elements_live (h : Listed item opens (.symbol .rightParen)) {c : List α → Phrase β}
    (hlive : ∀ as, (c as).Live) :
    (Phrase.separated item >>= fun as ↦ symbol .rightParen >>= fun _ ↦ c as).Live :=
  h.separated_live (by simp) fun as ↦ goesOn_consume (hlive as)

theorem columnList_bind (c : Option (List String) → Phrase β) :
    columnList >>= c = accept (.symbol .leftParen) >>= fun found ↦
      if found then separated identifier >>= fun names ↦ symbol .rightParen >>= fun _ ↦ c (some names)
      else c none := by
  funext tokens
  by_cases hhead : tokens.headD .endOfInput = .symbol .leftParen
  · obtain ⟨rest, rfl⟩ := eq_cons_of_headD hhead (by simp)
    show ((parenthesized (separated identifier) >>= fun names ↦ pure (some names)) >>= c) _ = _
    simp only [parenthesized, bind_assoc, pure_bind]
    rfl
  · have hnone : tokens.head? ≠ some (.symbol .leftParen) := by
      cases tokens with
      | nil => simp
      | cons t rest => simpa using hhead
    rw [run_bind, run_columnList_none hnone, run_accept_passed _ hhead]
    rfl

theorem run_selection_items {c : Selection → Phrase β} {name : String}
    (h : tokens.headD .endOfInput = .identifier name) :
    (selection >>= c) tokens = (separated selectItem >>= fun items ↦ c (.items items)) tokens := by
  obtain ⟨rest, rfl⟩ := eq_cons_of_headD h (by simp)
  show ((separated selectItem >>= fun items ↦ pure (.items items)) >>= c) _ = _
  simp only [bind_assoc, pure_bind]

def selectionExpectations : List Expectation := [.token (.symbol .star), .identifier]

theorem isAmong_selectionExpectations {k : Token} :
    k.IsAmong selectionExpectations ↔ k = .symbol .star ∨ ∃ name, k = .identifier name := by
  simp [selectionExpectations]

theorem awaits_selection (c : Selection → Phrase β) :
    (selection >>= c).Awaits selectionExpectations := by
  intro tokens h
  have hrun : selection tokens =
      .error ⟨selectionExpectations, (tokens.headD .endOfInput).display⟩ := by
    rw [isAmong_selectionExpectations, not_or] at h
    rw [selection, run_current_bind]
    generalize hhead : tokens.headD .endOfInput = t at h ⊢
    split
    · exact absurd rfl h.1
    · exact absurd ⟨_, rfl⟩ h.2
    · rw [run_unexpected, hhead]
      rfl
  rw [run_bind, hrun]
  rfl

theorem items_goesOn {c : List SelectItem → Phrase β}
    (hlive : ∀ items, (c items).GoesOn [] (.keyword .from)) (name : String) :
    (separated selectItem >>= c).GoesOn [] (.identifier name) := by
  obtain ⟨more, found, hrun⟩ := hlive [⟨name, some "x"⟩]
  refine ⟨.identifier "x" :: .keyword .from :: more, found, ?_⟩
  have hfrom : (further selectItem ⟨name, some "x"⟩ >>= c) (.keyword .from :: more) = _ :=
    run_further_other _ c more (by simp)
  rw [separated_eq .selectItem, bind_assoc]
  exact hfrom.trans hrun

theorem selection_goesOn {c : Selection → Phrase β}
    (hlive : ∀ selection, (c selection).GoesOn [] (.keyword .from)) (k : Token)
    (hk : k.IsAmong selectionExpectations) : (selection >>= c).GoesOn [] k := by
  rcases isAmong_selectionExpectations.mp hk with rfl | ⟨name, rfl⟩
  · obtain ⟨more, found, hrun⟩ := hlive .all
    exact ⟨_, found, hrun⟩
  · obtain ⟨more, found, hrun⟩ := items_goesOn (fun items ↦ hlive (.items items)) name
    have hsame : (selection >>= c) (.identifier name :: more) = _ := run_selection_items rfl
    exact ⟨more, found, hsame.trans hrun⟩

theorem Guided.selection {c : Selection → Phrase β}
    (hlive : ∀ selection, (c selection).GoesOn [] (.keyword .from))
    (hsettle : Settle selectionExpectations fun k ↦ k.IsAmong selectionExpectations ∨ pre k)
    (hall : ∀ rest : List Token, rest.length < tokens.length → (c .all).Guided NoToken rest)
    (hitems : ∀ items (item : SelectItem) (rest : List Token), rest.length < tokens.length →
      (c (.items items)).Guided
        (fun k ↦ k = .symbol .comma ∨ item.newName = none ∧ OpensName k) rest) :
    (Phrase.selection >>= c).Guided pre tokens := by
  by_cases hhead : (tokens.headD .endOfInput).IsAmong selectionExpectations
  · rcases isAmong_selectionExpectations.mp hhead with hstar | ⟨name, hname⟩
    · obtain ⟨rest, rfl⟩ := eq_cons_of_headD hstar (by simp)
      exact .next (fun _ ↦ rfl) (hall rest (Nat.lt_succ_self _))
    · refine .enter (fun rest hrest ↦ run_selection_items (hrest ▸ hname)) ?_ <|
        (listed_selectItem (.keyword .from)).separated (by simp) (fun items ↦ hlive (.items items)) hitems
      rw [hname]
      exact items_goesOn (fun items ↦ hlive (.items items)) name
  · exact .awaited (awaits_selection c) (selection_goesOn hlive) hhead hsettle

end Phrase

end TableStore
