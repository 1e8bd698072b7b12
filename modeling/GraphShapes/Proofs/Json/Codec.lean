import GraphShapes.Json.Codec
import GraphShapes.Proofs.Json.Reading
import Mathlib.Data.List.Nodup

/-!
# What may be relied on in a codec

`Json.Codec.Lawful` lists what a JSON library promises, one promise for each thing that it is used
for: a text is read as the value that it was written for, a record that is written with all its
fields is read with all of them, and so on. No promise is about the data of this library, and what
happens to other values and other texts is left open.

`Json.Codec.standard_lawful`: the standard codec keeps these promises.
-/

namespace GraphShapes.Json

/-- What a JSON library promises about what was written with it. -/
structure Codec.Lawful (codec : Codec) : Prop where
  /-- Brackets may be nested deep enough. -/
  nests : Json.nestingLimit ≤ codec.nestingLimit
  /-- A text is read as the value for which it was written, unless brackets are nested too deep. -/
  read?_write : ∀ v : Json, v.Plain → v.depth ≤ codec.nestingLimit →
    codec.read? (codec.write v) = some v
  /-- A record may be written as an object of all its fields in order. -/
  record?_obj : ∀ {members : List (String × Json)} {fields : List Field},
    members.map Prod.fst = fields.map Field.name → (fields.map Field.name).Nodup →
      codec.record? fields (.obj members) = some (members.map fun m => some m.2)
  /-- A choice is written as an object with one member. -/
  case?_obj : ∀ name content, codec.case? (.obj [(name, content)]) = some (name, content)
  name?_str : ∀ nesting name, codec.name? nesting (.str name) = some name
  items?_arr : ∀ items, codec.items? (.arr items) = some items
  /-- Null, and nothing else, stands for nothing. -/
  given?_null : codec.given? .null = none
  given?_of_ne : ∀ {v : Json}, v ≠ .null → codec.given? v = some v
  str?_str : ∀ s, codec.str? (.str s) = some s
  bool?_bool : ∀ b, codec.bool? (.bool b) = some b
  word?_word : ∀ w, codec.word? (.word w) = some w
  nat?_nat : ∀ {n : Nat}, n < UInt64.size → codec.nat? (.nat n) = some n
  int64?_int : ∀ i : Int64, codec.int64? (.int i.toInt) = some i

/-! ## The standard codec -/

/-- The member of a name among members of different names. -/
theorem filter_name : ∀ {members : List (String × Json)}, (members.map Prod.fst).Nodup →
    ∀ {m : String × Json}, m ∈ members → (members.filter fun p => p.1 = m.1) = [m]
  | p :: rest, hnodup, m, hm => by
    obtain ⟨hp, hrest⟩ := List.nodup_cons.1 hnodup
    rcases List.mem_cons.1 hm with rfl | hm
    · have hnone : (rest.filter fun p => p.1 = m.1) = [] := by
        rw [List.filter_eq_nil_iff]
        intro q hq heq
        have heq : q.1 = m.1 := by simpa using heq
        exact hp (heq ▸ List.mem_map_of_mem hq)
      rw [List.filter_cons_of_pos (by simp), hnone]
    · have hne : p.1 ≠ m.1 := by
        intro heq
        exact hp (heq ▸ List.mem_map_of_mem hm)
      rw [List.filter_cons_of_neg (by simpa using hne), filter_name hrest hm]

/-- The fields of a record are found among its members, whatever its other members are. -/
theorem mapM_memberOf? {members : List (String × Json)} (hnodup : (members.map Prod.fst).Nodup) :
    ∀ {fields : List Field} {ms : List (String × Json)}, ms ⊆ members →
      ms.map Prod.fst = fields.map Field.name →
        fields.mapM (memberOf? members) = some (ms.map fun m => some m.2)
  | [], [], _, _ => rfl
  | field :: fields, m :: ms, hsub, hnames => by
    rw [List.map_cons, List.map_cons, List.cons_eq_cons] at hnames
    have hm : m ∈ members := hsub List.mem_cons_self
    have hfield : memberOf? members field = some (some m.2) := by
      rw [memberOf?, ← hnames.1, filter_name hnodup hm]
    have hrest := mapM_memberOf? hnodup (List.subset_of_cons_subset hsub) hnames.2
    rw [List.mapM_cons, hfield, hrest]
    rfl

/-- A number in a range is read as it is. -/
theorem intIn?_int {lo hi i : Int} (hlo : lo ≤ i) (hhi : i ≤ hi) :
    (int i).intIn? lo hi = some i := if_pos ⟨hlo, hhi⟩

/-- A number of 64 bits is in the range of such numbers. -/
theorem intIn?_natCast {n : Nat} (h : n < UInt64.size) :
    (int n).intIn? 0 (UInt64.size - 1) = some (n : Int) :=
  intIn?_int (Int.natCast_nonneg n) (by omega)

theorem Codec.standard_lawful : standard.Lawful where
  nests := Nat.le_refl _
  read?_write _ hplain _ := read?_compact hplain
  record?_obj hnames hnodup :=
    mapM_memberOf? (hnames ▸ hnodup) (List.Subset.refl _) hnames
  case?_obj _ _ := rfl
  name?_str nesting _ := by cases nesting <;> rfl
  items?_arr _ := rfl
  given?_null := rfl
  given?_of_ne {v} hv := by
    cases v with
    | null => exact absurd rfl hv
    | _ => rfl
  str?_str _ := rfl
  bool?_bool _ := rfl
  word?_word w := by
    show ((int w.toNat).intIn? 0 (UInt64.size - 1)).map (fun i => i.toNat.toUInt64) = some w
    rw [intIn?_natCast w.toNat_lt]
    simp
  nat?_nat h := by
    show ((int _).intIn? 0 (UInt64.size - 1)).map Int.toNat = _
    rw [intIn?_natCast h]
    rfl
  int64?_int i := by
    show ((int i.toInt).intIn? _ _).map Int64.ofInt = some i
    rw [intIn?_int i.minValue_le_toInt i.toInt_le, Option.map_some, Int64.ofInt_toInt]

end GraphShapes.Json
