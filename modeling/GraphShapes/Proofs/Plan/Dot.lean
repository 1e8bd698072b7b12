import GraphShapes.PlanGraph
import GraphShapes.Proofs.Json.Lexing

/-!
# Plan graphs from their DOT text

The DOT text of a graph tells its operators and its edges, in order, whatever the labels are
(`PlanGraph.toDot_eq_iff`). It can be read from the front. A label ends at the first quote that is
not behind a backslash, because every quote and every backslash of the label itself is written
behind one (`unquote?_escape`); a number ends with its digits (`number_cancel`). So neither a line
break in a label nor a label that looks like a line is taken for the end of its line, and the line
of an operator differs from that of an edge right behind the first number.
-/

namespace GraphShapes.PlanGraph

/-! ## Labels -/

/-- Only quotes and backslashes are escaped. -/
theorem escape_of_ne {c : Char} (hslash : c ≠ '\\') (hquote : c ≠ '"') : escape c = [c] := by
  unfold escape
  split
  · contradiction
  · contradiction
  · rfl

/-- A text with another one in place of every occurrence of a character. -/
def replaced (c : Char) (text cs : List Char) : List Char :=
  cs.flatMap fun d => if d = c then text else [d]

/-- A label is written with every backslash doubled, and then with one before every quote. -/
theorem flatMap_escape (cs : List Char) :
    cs.flatMap escape = replaced '"' ['\\', '"'] (replaced '\\' ['\\', '\\'] cs) := by
  rw [replaced, replaced, List.flatMap_assoc]
  refine List.flatMap_congr fun c _ => ?_
  by_cases hslash : c = '\\'
  · subst hslash
    rfl
  · rw [if_neg hslash, List.flatMap_singleton]
    by_cases hquote : c = '"'
    · subst hquote
      rfl
    · rw [if_neg hquote, escape_of_ne hslash hquote]

/-- A label without the backslashes that its characters are written behind, up to its closing quote,
and what follows. -/
def unquote? : List Char → Option (List Char × List Char)
  | [] => none
  | '"' :: rest => some ([], rest)
  | '\\' :: c :: rest => (unquote? rest).map fun (cs, behind) => (c :: cs, behind)
  | c :: rest => (unquote? rest).map fun (cs, behind) => (c :: cs, behind)

/-- A character is written behind a backslash, or as it is. -/
theorem escape_cases (c : Char) :
    escape c = ['\\', c] ∨ (c ≠ '\\' ∧ c ≠ '"' ∧ escape c = [c]) := by
  by_cases hslash : c = '\\'
  · subst hslash
    exact .inl rfl
  by_cases hquote : c = '"'
  · subst hquote
    exact .inl rfl
  exact .inr ⟨hslash, hquote, escape_of_ne hslash hquote⟩

/-- An escaped character is read back as itself. -/
theorem unquote?_escape (c : Char) (rest : List Char) : unquote? (escape c ++ rest) =
    (unquote? rest).map fun (cs, behind) => (c :: cs, behind) := by
  rcases escape_cases c with h | ⟨hslash, hquote, h⟩
  · rw [h]
    simp [unquote?]
  · rw [h]
    simp [unquote?, hslash]

/-- A label is read as it was written. -/
theorem unquote?_label (cs rest : List Char) :
    unquote? (cs.flatMap escape ++ '"' :: rest) = some (cs, rest) := by
  induction cs with
  | nil => rw [List.flatMap_nil, List.nil_append, unquote?]
  | cons c cs ih => rw [List.flatMap_cons, List.append_assoc, unquote?_escape, ih]; rfl

/-- Where two labels end is told by the text, and what they are. -/
theorem label_cancel {cs ds rest rest' : List Char}
    (h : cs.flatMap escape ++ '"' :: rest = ds.flatMap escape ++ '"' :: rest') :
    cs = ds ∧ rest = rest' := by
  have hread := congrArg unquote? h
  rw [unquote?_label, unquote?_label, Option.some.injEq, Prod.mk.injEq] at hread
  exact hread

/-! ## Numbers -/

/-- A number is known from a text that starts with it, if no further digit follows. -/
theorem number_cancel {m n : Nat} {c d : Char} {rest rest' : List Char} (hc : ¬c.isDigit)
    (hd : ¬d.isDigit) (h : Nat.toDigits 10 m ++ c :: rest = Nat.toDigits 10 n ++ d :: rest') :
    m = n ∧ c = d ∧ rest = rest' := by
  have hspan := congrArg Text.Decimal.span h
  rw [Text.Decimal.span_toDigits m (by simpa using hc),
    Text.Decimal.span_toDigits n (by simpa using hd), Prod.mk.injEq, List.cons.injEq] at hspan
  obtain ⟨hdigits, hchar, hrest⟩ := hspan
  have hvalue := congrArg Text.Decimal.value hdigits
  rw [Text.Decimal.value_toDigits, Text.Decimal.value_toDigits] at hvalue
  exact ⟨hvalue, hchar, hrest⟩

/-! ## Lines -/

theorem toList_nodeLine (n : Nat) (label : String) (rest : List Char) :
    (nodeLine n label).toList ++ rest = ' ' :: ' ' :: 'n' :: (Nat.toDigits 10 n ++ ' ' ::
      ("[label=\"".toList ++ (label.toList.flatMap escape ++ '"' :: ("];\n".toList ++ rest)))) := by
  simp [nodeLine]

theorem toList_edgeLine (e : Nat × Nat) (rest : List Char) :
    (edgeLine e).toList ++ rest = ' ' :: ' ' :: 'n' :: (Nat.toDigits 10 e.1 ++ ' ' ::
      ("-> n".toList ++ (Nat.toDigits 10 e.2 ++ ';' :: '\n' :: rest))) := by
  simp [edgeLine]

/-- The lines of edges and what stands behind them. -/
def edgeLines (edges : List (Nat × Nat)) : List Char :=
  edges.flatMap (fun e => (edgeLine e).toList) ++ "\x7d\n".toList

/-- The lines of operators with numbers from the first one on, and what stands behind them. -/
def lines (first : Nat) (labels : List String) (edges : List (Nat × Nat)) : List Char :=
  (labels.zipIdx first).flatMap (fun (label, n) => (nodeLine n label).toList) ++ edgeLines edges

theorem edgeLines_cons (e : Nat × Nat) (edges : List (Nat × Nat)) :
    edgeLines (e :: edges) = (edgeLine e).toList ++ edgeLines edges := by
  rw [edgeLines, List.flatMap_cons, List.append_assoc, edgeLines]

theorem lines_cons (n : Nat) (label : String) (labels : List String) (edges : List (Nat × Nat)) :
    lines n (label :: labels) edges = (nodeLine n label).toList ++ lines (n + 1) labels edges := by
  rw [lines, List.zipIdx_cons, List.flatMap_cons, List.append_assoc, lines]

/-- Some edges leave a text that none would leave. -/
theorem edgeLines_cons_ne_nil {e : Nat × Nat} {edges : List (Nat × Nat)} :
    edgeLines (e :: edges) ≠ edgeLines [] := by
  intro h
  rw [edgeLines_cons, toList_edgeLine] at h
  simp [edgeLines] at h

/-- The lines of edges tell the edges, by induction over them. -/
theorem edgeLines_inj {edges edges' : List (Nat × Nat)} (h : edgeLines edges = edgeLines edges') :
    edges = edges' := by
  induction edges generalizing edges' with
  | nil =>
    cases edges' with
    | nil => rfl
    | cons e' edges' => exact absurd h.symm edgeLines_cons_ne_nil
  | cons e edges ih =>
    cases edges' with
    | nil => exact absurd h edgeLines_cons_ne_nil
    | cons e' edges' =>
      rw [edgeLines_cons, edgeLines_cons, toList_edgeLine, toList_edgeLine] at h
      simp only [List.cons.injEq, true_and] at h
      obtain ⟨hfrom, -, htail⟩ := number_cancel (by decide) (by decide) h
      rw [List.append_cancel_left_eq] at htail
      obtain ⟨hto, -, htail⟩ := number_cancel (by decide) (by decide) htail
      rw [Prod.ext hfrom hto, ih (List.cons.inj htail).2]

/-- The line of an operator is not that of an edge. -/
theorem lines_cons_ne_edgeLines {n : Nat} {label : String} {labels : List String}
    {edges edges' : List (Nat × Nat)} : lines n (label :: labels) edges ≠ edgeLines edges' := by
  intro h
  rw [lines_cons, toList_nodeLine] at h
  cases edges' with
  | nil => simp [edgeLines] at h
  | cons e edges' =>
    rw [edgeLines_cons, toList_edgeLine] at h
    simp only [List.cons.injEq, true_and] at h
    obtain ⟨-, -, htail⟩ := number_cancel (by decide) (by decide) h
    simp at htail

/-- The lines of a graph tell its labels and its edges, by induction over the labels. -/
theorem lines_inj {edges edges' : List (Nat × Nat)} {n : Nat} {labels labels' : List String}
    (h : lines n labels edges = lines n labels' edges') : labels = labels' ∧ edges = edges' := by
  induction labels generalizing n labels' with
  | nil =>
    cases labels' with
    | nil => exact ⟨rfl, edgeLines_inj h⟩
    | cons label' labels' => exact absurd h.symm lines_cons_ne_edgeLines
  | cons label labels ih =>
    cases labels' with
    | nil => exact absurd h lines_cons_ne_edgeLines
    | cons label' labels' =>
      rw [lines_cons, lines_cons, toList_nodeLine, toList_nodeLine] at h
      simp only [List.cons.injEq, true_and] at h
      obtain ⟨-, -, htail⟩ := number_cancel (by decide) (by decide) h
      rw [List.append_cancel_left_eq] at htail
      obtain ⟨hlabel, hrest⟩ := label_cancel htail
      rw [List.append_cancel_left_eq] at hrest
      obtain ⟨hlabels, hedges⟩ := ih hrest
      exact ⟨congrArg₂ List.cons (String.toList_inj.1 hlabel) hlabels, hedges⟩

/-! ## Graphs -/

/-- Apart from its frame, the text consists of the lines. -/
theorem toDot_eq (g : PlanGraph) : g.toDot =
    "digraph plan \x7b\n  rankdir=BT;\n" ++
      String.ofList (lines 0 g.nodes.toList g.edges.toList) := by
  have hnodes :
      (String.join (g.nodes.toList.zipIdx.map fun (label, n) => nodeLine n label)).toList =
        g.nodes.toList.zipIdx.flatMap fun (label, n) => (nodeLine n label).toList := by
    rw [String.toList_join, List.flatMap_map]
  have hedges : (String.join (g.edges.toList.map edgeLine)).toList =
      g.edges.toList.flatMap fun e => (edgeLine e).toList := by
    rw [String.toList_join, List.flatMap_map]
  unfold toDot
  rw [String.append_assoc, String.append_assoc, lines, edgeLines, ← hnodes, ← hedges,
    String.ofList_append, String.ofList_append, String.ofList_toList, String.ofList_toList,
    String.ofList_toList]

/-- Two graphs have one DOT text exactly if they have the same operators in the same order and the
same edges in the same order. -/
theorem toDot_eq_iff (g h : PlanGraph) :
    g.toDot = h.toDot ↔ g.nodes = h.nodes ∧ g.edges = h.edges := by
  constructor
  · intro hdot
    rw [toDot_eq, toDot_eq, String.append_right_inj, String.ofList_inj] at hdot
    obtain ⟨hnodes, hedges⟩ := lines_inj hdot
    exact ⟨Array.toList_inj.1 hnodes, Array.toList_inj.1 hedges⟩
  · intro hsame
    obtain ⟨hnodes, hedges⟩ := hsame
    unfold toDot
    rw [hnodes, hedges]

end GraphShapes.PlanGraph
