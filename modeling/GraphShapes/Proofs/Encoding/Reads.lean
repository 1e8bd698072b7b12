import GraphShapes.Encoding.Record
import GraphShapes.Proofs.Json.Codec

/-!
# Reading what was encoded

A decoder reads a value off a JSON value if it does so however deep brackets may be nested, as long
as that is deep enough for the JSON value (`Decoder.Reads`). Then it also reads the value off the
compact text (`Decoder.Reads.ofText`). There is a rule for every way in which encodings are put
together: lists, records with optional fields, and choices.
-/

namespace GraphShapes

namespace Json

/-- A list of values is plain if each of them is. -/
theorem plainItems_iff : ∀ {items : List Json}, PlainItems items ↔ ∀ v ∈ items, v.Plain
  | [] => by simp [PlainItems]
  | v :: rest => by
    rw [PlainItems, plainItems_iff, List.forall_mem_cons]

/-- A record is plain if the values of its fields are. -/
theorem plainMembers_iff : ∀ {members : List (String × Json)},
    PlainMembers members ↔ ∀ m ∈ members, m.2.Plain
  | [] => by simp [PlainMembers]
  | (name, v) :: rest => by
    rw [PlainMembers, plainMembers_iff, List.forall_mem_cons]

/-- A list is nested as deep as its deepest item. -/
theorem depthOfItems_le_iff {n : Nat} : ∀ {items : List Json},
    depthOfItems items ≤ n ↔ ∀ v ∈ items, v.depth ≤ n
  | [] => by simp [depthOfItems]
  | v :: rest => by
    rw [depthOfItems, Nat.max_le, depthOfItems_le_iff, List.forall_mem_cons]

/-- A record is nested as deep as its deepest field. -/
theorem depthOfMembers_le_iff {n : Nat} : ∀ {members : List (String × Json)},
    depthOfMembers members ≤ n ↔ ∀ m ∈ members, m.2.depth ≤ n
  | [] => by simp [depthOfMembers]
  | (name, v) :: rest => by
    rw [depthOfMembers, Nat.max_le, depthOfMembers_le_iff, List.forall_mem_cons]

/-- Where an array may stand, its items may stand one level below. -/
theorem depth_arr_le {items : List Json} {n : Nat} (h : (arr items).depth ≤ n) :
    ∃ m, n = m + 1 ∧ ∀ v ∈ items, v.depth ≤ m := by
  rw [depth] at h
  cases n with
  | zero => exact absurd h (Nat.not_succ_le_zero _)
  | succ m => exact ⟨m, rfl, depthOfItems_le_iff.1 (Nat.le_of_succ_le_succ h)⟩

/-- One bracket goes to the record itself. -/
theorem depth_obj_le {members : List (String × Json)} {n : Nat} (h : (obj members).depth ≤ n) :
    ∃ m, n = m + 1 ∧ ∀ p ∈ members, p.2.depth ≤ m := by
  rw [depth] at h
  cases n with
  | zero => exact absurd h (Nat.not_succ_le_zero _)
  | succ m => exact ⟨m, rfl, depthOfMembers_le_iff.1 (Nat.le_of_succ_le_succ h)⟩

end Json

/-! ## Decoders -/

/-- A decoder reads a value off a JSON value, if brackets may be nested as deep as they are in it. -/
structure Decoder.Reads {α : Type} (decode : Decoder α) (v : Json) (a : α) : Prop where
  plain : v.Plain
  decodes : ∀ n, v.depth ≤ n → decode n v = some a

namespace Decoder.Reads

variable {α β : Type} {codec : Json.Codec} {decode : Decoder α}

section Lawful

variable (hc : codec.Lawful)
include hc

/-- A value is read off the compact text of its encoding. -/
theorem ofText {v : Json} {a : α} (h : decode.Reads v a) (hdepth : v.depth ≤ Json.nestingLimit) :
    decode.ofText? (codec.write v) codec = some a := by
  have hdepth := Nat.le_trans hdepth hc.nests
  rw [ofText?, hc.read?_write v h.plain hdepth]
  exact h.decodes codec.nestingLimit hdepth

theorem str (s : String) : Reads (fun _ v => codec.str? v) (.str s) s :=
  ⟨trivial, fun _ _ => hc.str?_str s⟩

theorem bool (b : Bool) : Reads (fun _ v => codec.bool? v) (.bool b) b :=
  ⟨trivial, fun _ _ => hc.bool?_bool b⟩

/-- A natural number is read if it fits into a word. -/
theorem nat {n : Nat} (h : n < UInt64.size) : Reads (fun _ v => codec.nat? v) (.nat n) n :=
  ⟨trivial, fun _ _ => hc.nat?_nat h⟩

theorem word (w : UInt64) : Reads (fun _ v => codec.word? v) (.word w) w :=
  ⟨trivial, fun _ _ => hc.word?_word w⟩

/-- Every signed number that can be written is read. -/
theorem int64 (i : Int64) : Reads (fun _ v => codec.int64? v) (.int i.toInt) i :=
  ⟨trivial, fun _ _ => hc.int64?_int i⟩

/-- One of finitely many values is read off its name. -/
theorem name {ofName? : String → Option α} {a : α} {name : String} (h : ofName? name = some a) :
    Reads (fun nesting v => (codec.name? nesting v).bind ofName?) (.str name) a := by
  refine ⟨trivial, fun n _ => ?_⟩
  rw [hc.name?_str]
  exact h

/-- A case of a choice is read if its content is. -/
theorem ofCase {choice : Decoder β} {f : α → β} {name : String} {content : Json} {a : α}
    (h : decode.Reads content a)
    (hchoice : ∀ n v, codec.case? v = some (name, content) →
      choice (n + 1) v = (decode n content).map f) :
    choice.Reads (.ofCase name content) (f a) := by
  refine ⟨⟨h.plain, trivial⟩, fun n hn => ?_⟩
  obtain ⟨m, rfl, hm⟩ := Json.depth_obj_le hn
  rw [hchoice m (.ofCase name content) (hc.case?_obj name content), h.decodes m (hm _ List.mem_cons_self)]
  rfl

/-! ## Lists -/

theorem nil : (codec.list? decode).Reads (.arr []) [] := by
  refine ⟨trivial, fun n hn => ?_⟩
  obtain ⟨m, rfl, -⟩ := Json.depth_arr_le hn
  rw [Json.Codec.list?, hc.items?_arr]
  rfl

/-- A list is read item by item. -/
theorem cons {v : Json} {a : α} {vs : List Json} {as : List α} (h : decode.Reads v a)
    (hs : (codec.list? decode).Reads (.arr vs) as) :
    (codec.list? decode).Reads (.arr (v :: vs)) (a :: as) := by
  refine ⟨⟨h.plain, hs.plain⟩, fun n hn => ?_⟩
  obtain ⟨m, rfl, hm⟩ := Json.depth_arr_le hn
  have hvs : (Json.arr vs).depth ≤ m + 1 := by
    rw [Json.depth]
    exact Nat.succ_le_succ (Json.depthOfItems_le_iff.2 fun w hw => hm w (List.mem_cons_of_mem v hw))
  have hrest := hs.decodes (m + 1) hvs
  rw [Json.Codec.list?, hc.items?_arr, Option.bind_some] at hrest ⊢
  rw [List.mapM_cons, h.decodes m (hm v List.mem_cons_self), hrest]
  rfl

/-- A list is read if each of its items is. -/
theorem list {encode : α → Json} : ∀ {as : List α}, (∀ a ∈ as, decode.Reads (encode a) a) →
    (codec.list? decode).Reads (.ofList encode as) as
  | [], _ => nil hc
  | a :: _, h => cons hc (h a List.mem_cons_self) (list fun b hb => h b (List.mem_cons_of_mem a hb))

end Lawful

/-- Something that is read off a part, and made into something else. -/
theorem map {v : Json} {a : α} (h : decode.Reads v a) (f : α → β) :
    Reads (fun n v => (decode n v).map f) v (f a) := by
  refine ⟨h.plain, fun n hn => ?_⟩
  rw [h.decodes n hn]
  rfl

/-! ## Optional fields -/

/-- A field that may be missing is plain if its value is. -/
theorem plain_ofOption {encode : α → Json} {o : Option α}
    (h : ∀ a ∈ o, decode.Reads (encode a) a) : (Json.ofOption (o.map encode)).Plain := by
  cases o with
  | none => trivial
  | some a => exact (h a rfl).plain

/-- A value that may be missing is read, if what is there is not written as null. -/
theorem optional (hc : codec.Lawful) {encode : α → Json} {o : Option α}
    (h : ∀ a ∈ o, decode.Reads (encode a) a) (hnull : ∀ a, encode a ≠ .null) {n : Nat}
    (hn : (Json.ofOption (o.map encode)).depth ≤ n) :
    codec.optional? (decode n) (some (.ofOption (o.map encode))) = some o := by
  cases o with
  | none =>
    show codec.optional? (decode n) (some .null) = _
    rw [Json.Codec.optional?, hc.given?_null]
  | some a =>
    show codec.optional? (decode n) (some (encode a)) = some (some a)
    rw [Json.Codec.optional?, hc.given?_of_ne (hnull a)]
    show (decode n (encode a)).map some = _
    rw [(h a rfl).decodes n hn]
    rfl

end Decoder.Reads

end GraphShapes
