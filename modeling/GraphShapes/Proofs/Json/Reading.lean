import GraphShapes.Json.Reader
import GraphShapes.Json.Writer
import GraphShapes.Proofs.Json.Lexing

/-!
# Values that are written and read again

The compact form of a value is read as that value (`Json.read?_compact`), if nothing in it stands
for what the data model does not know (`Json.Plain`). The tokens of a value are read one after the
other, with whatever follows them left over, so that the proof goes along the value.
-/

namespace GraphShapes

namespace Json

mutual

/-- Nothing in the value lies outside the data model. -/
def Plain : Json → Prop
  | arr items => PlainItems items
  | obj members => PlainMembers members
  | other => False
  | _ => True

def PlainItems : List Json → Prop
  | [] => True
  | v :: rest => v.Plain ∧ PlainItems rest

def PlainMembers : List (String × Json) → Prop
  | [] => True
  | (_, v) :: rest => v.Plain ∧ PlainMembers rest

end

/-! ## The tokens of a value -/

theorem meets_comma (t : Token) : t.Meets .comma := by
  cases t with
  | int i => exact .inl rfl
  | _ => trivial

theorem meets_closeArr (t : Token) : t.Meets .closeArr := by
  cases t with
  | int i => exact .inr (.inl rfl)
  | _ => trivial

theorem meets_closeObj (t : Token) : t.Meets .closeObj := by
  cases t with
  | int i => exact .inr (.inr rfl)
  | _ => trivial

/-- A token that is no number may stand in front of any other. -/
theorem isChain_cons {t : Token} (ht : ∀ i, t ≠ .int i) {ts : List Token}
    (h : ts.IsChain Token.Meets) : (t :: ts).IsChain Token.Meets := by
  refine h.cons fun u _ => ?_
  cases t with
  | int i => exact absurd rfl (ht i)
  | _ => trivial

/-- What may follow any token goes on a list of tokens. -/
theorem isChain_append {ts : List Token} (h : ts.IsChain Token.Meets) {t : Token}
    (hmeets : ∀ u : Token, u.Meets t) {rest : List Token}
    (hrest : (t :: rest).IsChain Token.Meets) : (ts ++ t :: rest).IsChain Token.Meets := by
  refine List.isChain_append.2 ⟨h, hrest, fun u _ v hv => ?_⟩
  obtain rfl := Option.some.inj hv
  exact hmeets u

mutual

/-- No two tokens of a value that stand next to each other run together. -/
theorem isChain_tokens : ∀ v : Json, v.tokens.IsChain Token.Meets
  | null => .singleton _
  | bool _ => .singleton _
  | int _ => .singleton _
  | str _ => .singleton _
  | other => .singleton _
  | arr items => by
    have h := isChain_append (isChain_itemTokens items) meets_closeArr (.singleton _)
    rw [tokens, List.cons_append]
    exact isChain_cons (fun _ => Token.noConfusion) h
  | obj members => by
    have h := isChain_append (isChain_memberTokens members) meets_closeObj (.singleton _)
    rw [tokens, List.cons_append]
    exact isChain_cons (fun _ => Token.noConfusion) h

theorem isChain_itemTokens : ∀ items : List Json, (itemTokens items).IsChain Token.Meets
  | [] => .nil
  | [v] => isChain_tokens v
  | v :: w :: rest => by
    have hrest := isChain_cons (t := .comma) (fun _ => Token.noConfusion)
      (isChain_itemTokens (w :: rest))
    exact isChain_append (isChain_tokens v) meets_comma hrest

theorem isChain_memberTokens : ∀ members : List (String × Json),
    (memberTokens members).IsChain Token.Meets
  | [] => .nil
  | [(_, v)] =>
    isChain_cons (fun _ => Token.noConfusion)
      (isChain_cons (fun _ => Token.noConfusion) (isChain_tokens v))
  | (name, v) :: m :: rest => by
    have hrest := isChain_cons (t := .comma) (fun _ => Token.noConfusion)
      (isChain_memberTokens (m :: rest))
    have hvalue := isChain_append (isChain_tokens v) meets_comma hrest
    exact isChain_cons (fun _ => Token.noConfusion)
      (isChain_cons (fun _ => Token.noConfusion) hvalue)

end

mutual

/-- Every token of a plain value is read back whole. -/
theorem isWhole_tokens : ∀ v : Json, v.Plain → ∀ t ∈ v.tokens, t.IsWhole
  | null, _, t, ht => by
    obtain rfl := List.mem_singleton.1 ht
    trivial
  | bool _, _, t, ht => by
    obtain rfl := List.mem_singleton.1 ht
    trivial
  | int _, _, t, ht => by
    obtain rfl := List.mem_singleton.1 ht
    trivial
  | str _, _, t, ht => by
    obtain rfl := List.mem_singleton.1 ht
    trivial
  | arr items, hplain, t, ht => by
    have h := isWhole_itemTokens items hplain
    rw [tokens, List.cons_append, List.mem_cons, List.mem_append, List.mem_singleton] at ht
    rcases ht with rfl | ht | rfl
    · trivial
    · exact h t ht
    · trivial
  | obj members, hplain, t, ht => by
    have h := isWhole_memberTokens members hplain
    rw [tokens, List.cons_append, List.mem_cons, List.mem_append, List.mem_singleton] at ht
    rcases ht with rfl | ht | rfl
    · trivial
    · exact h t ht
    · trivial

theorem isWhole_itemTokens : ∀ items : List Json, PlainItems items →
    ∀ t ∈ itemTokens items, t.IsWhole
  | [], _, _, ht => nomatch ht
  | [v], hplain, t, ht => isWhole_tokens v hplain.1 t ht
  | v :: w :: rest, hplain, t, ht => by
    rw [itemTokens, List.mem_append, List.mem_cons] at ht
    · rcases ht with ht | rfl | ht
      · exact isWhole_tokens v hplain.1 t ht
      · trivial
      · exact isWhole_itemTokens (w :: rest) hplain.2 t ht
    · exact List.cons_ne_nil w rest

theorem isWhole_memberTokens : ∀ members : List (String × Json), PlainMembers members →
    ∀ t ∈ memberTokens members, t.IsWhole
  | [], _, _, ht => nomatch ht
  | [(name, v)], hplain, t, ht => by
    rw [memberTokens, List.mem_cons, List.mem_cons] at ht
    rcases ht with rfl | rfl | ht
    · trivial
    · trivial
    · exact isWhole_tokens v hplain.1 t ht
  | (name, v) :: m :: rest, hplain, t, ht => by
    rw [memberTokens, List.cons_append, List.cons_append, List.mem_cons, List.mem_cons,
      List.mem_append, List.mem_cons] at ht
    · rcases ht with rfl | rfl | ht | rfl | ht
      · trivial
      · trivial
      · exact isWhole_tokens v hplain.1 t ht
      · trivial
      · exact isWhole_memberTokens (m :: rest) hplain.2 t ht
    · exact List.cons_ne_nil m rest

end

/-! ## Reading the tokens of a value -/

/-- Items do not begin with the end of their array. -/
theorem exists_itemTokens (v : Json) (items : List Json) :
    ∃ t ts, itemTokens (v :: items) = t :: ts ∧ t ≠ .closeArr := by
  obtain ⟨t, ts, hv, ht⟩ : ∃ t ts, v.tokens = t :: ts ∧ t ≠ .closeArr := by
    cases v <;> exact ⟨_, _, rfl, Token.noConfusion⟩
  cases items with
  | nil => exact ⟨t, ts, hv, ht⟩
  | cons w items =>
    refine ⟨t, ts ++ .comma :: itemTokens (w :: items), ?_, ht⟩
    show v.tokens ++ .comma :: itemTokens (w :: items) = _
    rw [hv, List.cons_append]

/-- Members begin with a name. -/
theorem exists_memberTokens (m : String × Json) (members : List (String × Json)) :
    ∃ ts, memberTokens (m :: members) = .str m.1 :: ts := by
  cases members <;> exact ⟨_, rfl⟩

mutual

/-- A value is read off its tokens, and what follows them is left over. -/
theorem value?_tokens : ∀ (v : Json) (fuel : Nat) (rest : List Token), v.Plain →
    v.tokens.length ≤ fuel → value? fuel (v.tokens ++ rest) = some (v, rest)
  | null, fuel + 1, _, _, _ => rfl
  | bool _, fuel + 1, _, _, _ => rfl
  | int _, fuel + 1, _, _, _ => rfl
  | str _, fuel + 1, _, _, _ => rfl
  | arr [], fuel + 1, _, _, _ => rfl
  | arr (v :: items), fuel + 1, rest, hplain, hfuel => by
    rw [tokens] at hfuel ⊢
    rw [List.cons_append, List.length_cons, List.length_append, List.length_singleton] at hfuel
    have h := items?_tokens (v :: items) fuel [] rest (List.cons_ne_nil v items) hplain (by omega)
    -- The first token has to be seen, because an empty array would end here.
    obtain ⟨t, ts, hitems, ht⟩ := exists_itemTokens v items
    rw [hitems] at h ⊢
    rw [List.cons_append, List.cons_append, List.append_assoc, List.cons_append, value?]
    · exact h
    · intro rest' hrest
      exact ht (List.cons_eq_cons.1 hrest).1
  | obj [], fuel + 1, _, _, _ => rfl
  | obj (m :: members), fuel + 1, rest, hplain, hfuel => by
    rw [tokens] at hfuel ⊢
    rw [List.cons_append, List.length_cons, List.length_append, List.length_singleton] at hfuel
    have h := members?_tokens (m :: members) fuel [] rest (List.cons_ne_nil m members) hplain
      (by omega)
    obtain ⟨ts, hmembers⟩ := exists_memberTokens m members
    rw [hmembers] at h ⊢
    rw [List.cons_append, List.cons_append, List.append_assoc, List.cons_append, value?]
    · exact h
    · intro rest' hrest
      exact Token.noConfusion (List.cons_eq_cons.1 hrest).1

/-- The items of a list are read one after the other, behind those that were read already. -/
theorem items?_tokens : ∀ (items : List Json) (fuel : Nat) (read : List Json) (rest : List Token),
    items ≠ [] → PlainItems items → (itemTokens items).length < fuel →
      items? fuel read (itemTokens items ++ .closeArr :: rest) =
        some (.arr (read.reverse ++ items), rest)
  | [v], fuel + 1, read, rest, _, hplain, hfuel => by
    have hv := value?_tokens v fuel (.closeArr :: rest) hplain.1 (Nat.le_of_lt_succ hfuel)
    rw [items?, itemTokens, hv]
    simp
  | v :: w :: items, fuel + 1, read, rest, _, hplain, hfuel => by
    have htokens : itemTokens (v :: w :: items) =
        v.tokens ++ .comma :: itemTokens (w :: items) := rfl
    rw [htokens, List.length_append, List.length_cons] at hfuel
    have hv := value?_tokens v fuel (.comma :: (itemTokens (w :: items) ++ .closeArr :: rest))
      hplain.1 (by omega)
    have hitems := items?_tokens (w :: items) fuel (v :: read) rest (List.cons_ne_nil w items)
      hplain.2 (by omega)
    rw [htokens, List.append_assoc, List.cons_append, items?, hv]
    simp only [hitems]
    simp

/-- So are the fields of a record. -/
theorem members?_tokens : ∀ (members : List (String × Json)) (fuel : Nat)
    (read : List (String × Json)) (rest : List Token), members ≠ [] → PlainMembers members →
      (memberTokens members).length < fuel →
        members? fuel read true (memberTokens members ++ .closeObj :: rest) =
          some (.obj (read.reverse ++ members), rest)
  | [(name, v)], fuel + 1, read, rest, _, hplain, hfuel => by
    have htokens : memberTokens [(name, v)] = .str name :: .colon :: v.tokens := rfl
    rw [htokens, List.length_cons, List.length_cons] at hfuel
    have hv := value?_tokens v fuel (.closeObj :: rest) hplain.1 (by omega)
    rw [htokens, List.cons_append, List.cons_append, members?, memberName?]
    simp only [hv]
    simp
  | (name, v) :: m :: members, fuel + 1, read, rest, _, hplain, hfuel => by
    have htokens : memberTokens ((name, v) :: m :: members) =
        .str name :: .colon :: (v.tokens ++ .comma :: memberTokens (m :: members)) := rfl
    rw [htokens, List.length_cons, List.length_cons, List.length_append, List.length_cons] at hfuel
    have hv := value?_tokens v fuel (.comma :: (memberTokens (m :: members) ++ .closeObj :: rest))
      hplain.1 (by omega)
    -- what comes behind a comma is read as the rest of the members
    have hmembers := members?_tokens (m :: members) fuel ((name, v) :: read) rest
      (List.cons_ne_nil m members) hplain.2 (by omega)
    rw [htokens, List.cons_append, List.cons_append, List.append_assoc, List.cons_append, members?,
      memberName?]
    simp only [hv, Bool.and_self, hmembers]
    simp

end

/-- What was written in the compact form is read again. -/
theorem read?_compact {v : Json} (h : v.Plain) : read? v.compact = some v := by
  have htokens : tokens? v.compact.toList = some v.tokens := by
    rw [compact, String.toList_ofList]
    exact tokens?_text (isChain_tokens v) (isWhole_tokens v h)
  have hvalue := value?_tokens v (v.tokens.length + 1) [] h (Nat.le_succ _)
  rw [List.append_nil] at hvalue
  unfold read?
  rw [htokens, Option.bind_eq_bind, Option.bind_some, hvalue]

end Json

end GraphShapes
