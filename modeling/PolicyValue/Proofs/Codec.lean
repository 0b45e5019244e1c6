import PolicyValue.Archive.Format
import PolicyValue.Proofs.JsonText

/-!
# Faithful codecs

A codec is faithful when every value is written as a tree without faults that is read back as this
value, or refused if a scalar of it is not finite.  All that is asked of the format of scalars is
that the finite ones are read back (`ScalarText.ReadsBack`).

* `Codec.Faithful`: what is known of the trees that a codec writes, and of reading them;
* `Codec.Faithful.list`, `Layout.faithful`: lists and structures, from their parts;
* `Codec.Faithful.ofString_toString`: the same of texts.
-/

namespace PolicyValue

/-- The literal of a natural that fits a word is an integer. -/
theorem Decimal.Literal.integer?_ofNat {n : Nat} (h : n < wordBound) :
    (ofNat n).integer? = some (n : Int) := by
  simp only [integer?, ofNat, Bool.false_eq_true, if_false]
  exact if_pos h

/-! ## Trees without faults, and without repeated members -/

namespace Json

section

variable [ScalarText]

/-- An array of values without faults has none. -/
theorem readFault_ofItems {vs : List Json} {room : Nat} (h : ∀ v ∈ vs, v.readFault room = none) :
    (ofItems vs).readFault (room + 1) = none := by
  show (Items.ofList vs).readFault room = none
  induction vs with
  | nil => rfl
  | cons v vs ih =>
    rw [List.forall_mem_cons] at h
    exact Option.or_eq_none_iff.2 ⟨h.1, ih h.2⟩

/-- An object of values without faults has none. -/
theorem readFault_ofMembers {ms : List (String × Json)} {room : Nat}
    (h : ∀ m ∈ ms, m.2.readFault room = none) : (ofMembers ms).readFault (room + 1) = none := by
  show (Members.ofList ms).readFault room = none
  induction ms with
  | nil => rfl
  | cons m ms ih =>
    rw [List.forall_mem_cons] at h
    exact Option.or_eq_none_iff.2 ⟨h.1, ih h.2⟩

end

/-- The keys of an object. -/
theorem Members.hasKey_ofList (ms : List (String × Json)) (k : String) :
    (Members.ofList ms).hasKey (some k) = true ↔ k ∈ ms.map Prod.fst := by
  induction ms with
  | nil => simp [Members.ofList, Members.hasKey]
  | cons m ms ih =>
    rw [Members.ofList, Members.hasKey, Bool.or_eq_true, ih, List.map_cons, List.mem_cons,
      beq_iff_eq, Option.some.injEq, eq_comm]

/-- The members of an object. -/
theorem Members.toList_ofList (ms : List (String × Json)) :
    (Members.ofList ms).toList = ms.map fun (k, v) => (some k, v) := by
  induction ms with
  | nil => rfl
  | cons m ms ih => rw [Members.ofList, Members.toList, ih, List.map_cons]

/-- An array of settled values is settled. -/
theorem settle_ofItems {vs : List Json} (h : ∀ v ∈ vs, v.settle = v) :
    (ofItems vs).settle = ofItems vs := by
  have hitems : (Items.ofList vs).settle = Items.ofList vs := by
    induction vs with
    | nil => rfl
    | cons v vs ih =>
      rw [List.forall_mem_cons] at h
      rw [Items.ofList, Items.settle, h.1, ih h.2]
  rw [ofItems, settle, hitems]

/-- An object of settled values under distinct keys is settled. -/
theorem settle_ofMembers {ms : List (String × Json)} (hnodup : (ms.map Prod.fst).Nodup)
    (h : ∀ m ∈ ms, m.2.settle = m.2) : (ofMembers ms).settle = ofMembers ms := by
  have hmembers : (Members.ofList ms).settle = Members.ofList ms := by
    induction ms with
    | nil => rfl
    | cons m ms ih =>
      rw [List.map_cons, List.nodup_cons] at hnodup
      rw [List.forall_mem_cons] at h
      have hnew : (Members.ofList ms).hasKey (some m.1) = false := by
        rw [Bool.eq_false_iff, Ne, Members.hasKey_ofList]
        exact hnodup.1
      rw [Members.ofList, Members.settle, hnew, if_neg Bool.false_ne_true, h.1, ih hnodup.2 h.2]
  rw [ofMembers, settle, hmembers]

end Json

/-! ## Members of structures -/

namespace Layout

variable {σ : Type}

/-- The fields of a structure are found by their names. -/
theorem find?_name_eq {fields : List (Field σ)} (hnodup : (fields.map (·.name)).Nodup)
    {f : Field σ} (hf : f ∈ fields) : fields.find? (·.name == f.name) = some f := by
  induction fields with
  | nil => cases hf
  | cons g fields ih =>
    rw [List.map_cons, List.nodup_cons] at hnodup
    rcases List.mem_cons.1 hf with rfl | hf
    · exact List.find?_cons_of_pos (beq_self_eq_true _)
    · have hne : g.name ≠ f.name := fun heq => hnodup.1 (heq ▸ List.mem_map_of_mem hf)
      rw [List.find?_cons_of_neg (by simp [hne])]
      exact ih hnodup.2 hf

/-- Members among which a required one is missing are refused. -/
theorem exists_decodeMembers_eq_error {l : Layout σ} {f : Field σ} (hf : f ∈ l.fields)
    (hrequired : f.optional = false) {ms : List (String × Json)}
    (hmissing : f.name ∉ ms.map Prod.fst) {seen : List String} (hseen : f.name ∉ seen) (s : σ) :
    ∃ fault, l.decodeMembers seen s (.ofList ms) = .error fault := by
  induction ms generalizing seen s with
  | nil =>
    refine ⟨.mismatched, if_neg fun hall => ?_⟩
    have hthis := List.all_eq_true.1 hall f hf
    rw [hrequired, Bool.false_or, List.contains_iff_mem] at hthis
    exact hseen hthis
  | cons m ms ih =>
    obtain ⟨key, value⟩ := m
    rw [List.map_cons, List.mem_cons, not_or] at hmissing
    rw [Json.Members.ofList, decodeMembers]
    cases l.fields.find? (·.name == key) with
    | none =>
      simp only
      cases value.skipFault with
      | none => exact ih hmissing.2 hseen s
      | some fault => exact ⟨fault, rfl⟩
    | some g =>
      simp only
      by_cases hrepeated : seen.contains key = true
      · exact ⟨.mismatched, if_pos hrepeated⟩
      · rw [if_neg hrepeated]
        cases g.decode value with
        | error fault => exact ⟨fault, rfl⟩
        | ok change =>
          exact ih hmissing.2 (List.not_mem_cons_of_ne_of_not_mem hmissing.1 hseen) (change s)

end Layout

/-! ## Faithful codecs -/

/-- The finite ones of these scalars are read back from what is written for them. -/
def ScalarText.ReadsBack [ScalarText] (xs : List Float32) : Prop :=
  ∀ x ∈ xs, x.isFinite = true → ScalarText.read (ScalarText.write x) = some x

/-- All of these scalars are finite. -/
def Scalar.allFinite (xs : List Float32) : Bool := xs.all Float32.isFinite

/-- Values are refused together if one of them is. -/
theorem Scalar.allFinite_append (xs ys : List Float32) :
    Scalar.allFinite (xs ++ ys) = (Scalar.allFinite xs && Scalar.allFinite ys) :=
  List.all_append

/-- Values are refused if one of them is not finite. -/
theorem Scalar.allFinite_eq_false_iff {xs : List Float32} :
    Scalar.allFinite xs = false ↔ ∃ x ∈ xs, x.isFinite = false := by
  simp only [allFinite, List.all_eq_false, Bool.not_eq_true]

section

variable [ScalarText]

theorem ScalarText.readsBack_append {xs ys : List Float32} :
    ReadsBack (xs ++ ys) ↔ ReadsBack xs ∧ ReadsBack ys :=
  List.forall_mem_append

/-- A codec writes trees without faults or repeated members, nested so deep at most, and reads them
back unless a scalar is not finite. -/
structure Codec.Faithful {α : Type} (c : Codec α) (scalars : α → List Float32) (depth : Nat) :
    Prop where
  /-- No strict reading finds a fault. -/
  readFault_encode : ∀ a, ScalarText.ReadsBack (scalars a) → ∀ room, depth ≤ room →
    (c.encode a).readFault room = none
  /-- No object repeats a key. -/
  settle_encode : ∀ a, (c.encode a).settle = c.encode a
  /-- The tree is read back, or refused. -/
  decode_encode : ∀ a, ScalarText.ReadsBack (scalars a) →
    c.decode (c.encode a) = if Scalar.allFinite (scalars a) then .ok a else .error .mismatched

namespace Codec

variable {α : Type}

namespace Faithful

variable {c : Codec α} {scalars : α → List Float32} {depth : Nat}

/-- Scalars may be listed in another way. -/
theorem congr (h : c.Faithful scalars depth) {scalars' : α → List Float32}
    (heq : ∀ a, scalars a = scalars' a) : c.Faithful scalars' depth := by
  rwa [← funext heq]

/-- More depth is no harm. -/
theorem mono (h : c.Faithful scalars depth) {depth' : Nat} (hle : depth ≤ depth') :
    c.Faithful scalars depth' :=
  ⟨fun a ha room hroom => h.readFault_encode a ha room (Nat.le_trans hle hroom), h.settle_encode,
    h.decode_encode⟩

/-- A value without scalars is read back in any case. -/
theorem decode_encode_of_nil (h : c.Faithful (fun _ => []) depth) (a : α) :
    c.decode (c.encode a) = .ok a :=
  h.decode_encode a (fun _ hx => by cases hx)

/-- **A text that a faithful codec writes is read back**, or refused if a scalar is not finite. -/
theorem ofString_toString (h : c.Faithful scalars depth) {a : α}
    (ha : ScalarText.ReadsBack (scalars a)) :
    c.ofString (c.toString a) =
      if Scalar.allFinite (scalars a) then .ok a else .error .mismatched := by
  have hdocument : Document.ofString (c.toString a) = ⟨c.encode a, false⟩ :=
    Document.ofString_text (h.readFault_encode a ha depth (Nat.le_refl _))
  simp only [ofString, hdocument, h.decode_encode a ha]
  cases Scalar.allFinite (scalars a) <;> rfl

end Faithful

/-! ## Parts -/

/-- A natural below a bound is read back. -/
theorem decodeNat_ofNat {bound n : Nat} (hbound : bound ≤ Decimal.wordBound) (h : n < bound) :
    decodeNat bound (.ofNat n) = .ok n := by
  simp only [decodeNat, Json.ofNat, Decimal.Literal.integer?_ofNat (Nat.lt_of_lt_of_le h hbound)]
  exact if_pos h

/-- The tree of a natural has no fault. -/
theorem readFault_ofNat {n : Nat} (h : n < Decimal.wordBound) (room : Nat) :
    (Json.ofNat n).readFault room = none := by
  have hrange : (Decimal.Literal.ofNat n).inRange = true := by
    rw [Decimal.Literal.inRange, Decimal.Literal.integer?_ofNat h]
    rfl
  rw [Json.ofNat, Json.readFault, if_pos hrange]

theorem faithful_word32 : word32.Faithful (fun _ => []) 0 where
  readFault_encode n _ room _ := readFault_ofNat (Nat.lt_trans n.toNat_lt (by decide)) room
  settle_encode _ := rfl
  decode_encode n _ := by
    show (decodeNat UInt32.size (.ofNat n.toNat)).map UInt32.ofNat = _
    rw [decodeNat_ofNat (by decide) n.toNat_lt]
    exact congrArg Except.ok n.ofNat_toNat

theorem faithful_word64 : word64.Faithful (fun _ => []) 0 where
  readFault_encode n _ room _ := readFault_ofNat n.toNat_lt room
  settle_encode _ := rfl
  decode_encode n _ := by
    show (decodeNat UInt64.size (.ofNat n.toNat)).map UInt64.ofNat = _
    rw [decodeNat_ofNat (by decide) n.toNat_lt]
    exact congrArg Except.ok n.ofNat_toNat

/-- A finite scalar is written as a number, every other one as `null`. -/
theorem encode_scalar_of_finite {x : Float32} (h : x.isFinite = true) :
    scalar.encode x = .number (ScalarText.write x) := if_pos h

theorem encode_scalar_of_not_finite {x : Float32} (h : x.isFinite = false) :
    scalar.encode x = .null := if_neg (by rw [h]; exact Bool.false_ne_true)

/-- A scalar is read back if it is finite, and refused otherwise. -/
theorem faithful_scalar : scalar.Faithful (fun x => [x]) 0 where
  readFault_encode x hx room _ := by
    cases hfinite : x.isFinite with
    | true =>
      have hread := hx x (.head _) hfinite
      have hrange : (ScalarText.write x).inRange = true := by
        rw [Decimal.Literal.inRange, hread, Option.isSome_some, Bool.or_true]
      rw [encode_scalar_of_finite hfinite, Json.readFault, if_pos hrange]
    | false =>
      rw [encode_scalar_of_not_finite hfinite]
      rfl
  settle_encode x := by
    cases hfinite : x.isFinite with
    | true =>
      rw [encode_scalar_of_finite hfinite]
      rfl
    | false =>
      rw [encode_scalar_of_not_finite hfinite]
      rfl
  decode_encode x hx := by
    rw [Scalar.allFinite, List.all_cons, List.all_nil, Bool.and_true]
    cases hfinite : x.isFinite with
    | true =>
      rw [encode_scalar_of_finite hfinite]
      simp only [scalar, hx x (.head _) hfinite, if_true]
    | false =>
      rw [encode_scalar_of_not_finite hfinite]
      rfl

/-- Strings are read back, whatever characters they have. -/
theorem faithful_text : text.Faithful (fun _ => []) 0 where
  readFault_encode _ _ _ _ := rfl
  settle_encode _ := rfl
  decode_encode _ _ := rfl

/-- Values that stand for those of another type are read back if these are. -/
theorem Faithful.restrict {β : Type} {c : Codec α} {scalars : α → List Float32} {depth : Nat}
    (h : c.Faithful scalars depth) {of : α → Option β} {back : β → α}
    (hof : ∀ b, of (back b) = some b) :
    (c.restrict of back).Faithful (fun b => scalars (back b)) depth where
  readFault_encode b := h.readFault_encode (back b)
  settle_encode b := h.settle_encode (back b)
  decode_encode b hb := by
    unfold Codec.restrict
    dsimp only
    rw [h.decode_encode (back b) hb]
    cases Scalar.allFinite (scalars (back b)) with
    | true =>
      rw [if_pos rfl, ok_bind, hof]
      rfl
    | false => rfl

/-! ## Lists -/

/-- Values are read back one after the other, up to the first that is refused. -/
theorem Faithful.decodeItems_encode {c : Codec α} {scalars : α → List Float32} {depth : Nat}
    (h : c.Faithful scalars depth) {as : List α}
    (has : ScalarText.ReadsBack (as.flatMap scalars)) :
    decodeItems c.decode (.ofList (as.map c.encode)) =
      if Scalar.allFinite (as.flatMap scalars) then .ok as else .error .mismatched := by
  induction as with
  | nil => rfl
  | cons a as ih =>
    rw [List.flatMap_cons, ScalarText.readsBack_append] at has
    rw [List.flatMap_cons, Scalar.allFinite_append, List.map_cons, Json.Items.ofList, decodeItems,
      h.decode_encode a has.1, ih has.2]
    cases Scalar.allFinite (scalars a) with
    | true => cases Scalar.allFinite (as.flatMap scalars) <;> rfl
    | false => rfl

/-- Lists of values are read back if the values are. -/
theorem Faithful.list {c : Codec α} {scalars : α → List Float32} {depth : Nat}
    (h : c.Faithful scalars depth) :
    c.list.Faithful (fun as => as.flatMap scalars) (depth + 1) where
  readFault_encode as has room hroom := by
    obtain ⟨room, rfl⟩ : ∃ r, room = r + 1 := ⟨room - 1, by omega⟩
    refine Json.readFault_ofItems fun v hv => ?_
    obtain ⟨a, ha, rfl⟩ := List.mem_map.1 hv
    refine h.readFault_encode a (fun x hx => has x ?_) room (by omega)
    exact List.mem_flatMap.2 ⟨a, ha, hx⟩
  settle_encode as := by
    refine Json.settle_ofItems fun v hv => ?_
    obtain ⟨a, -, rfl⟩ := List.mem_map.1 hv
    exact h.settle_encode a
  decode_encode as has := h.decodeItems_encode has

/-- Lists of scalars. -/
theorem faithful_scalars : scalar.list.Faithful id 1 :=
  faithful_scalar.list.congr fun xs => List.flatMap_singleton' xs

/-- Lists of lists of scalars. -/
theorem faithful_rows : scalar.list.list.Faithful List.flatten 2 :=
  faithful_scalars.list.congr fun _ => List.flatMap_id

end Codec

/-! ## Structures -/

/-- A field of a structure is written without faults, and reading it puts its value. -/
structure Field.Faithful {σ : Type} (f : Field σ) (scalars : σ → List Float32) (put : σ → σ → σ)
    (depth : Nat) : Prop where
  /-- No strict reading finds a fault. -/
  readFault_encode : ∀ s, ScalarText.ReadsBack (scalars s) → ∀ room, depth ≤ room →
    (f.encode s).readFault room = none
  /-- No object repeats a key. -/
  settle_encode : ∀ s, (f.encode s).settle = f.encode s
  /-- The tree is read back, or refused. -/
  decode_encode : ∀ s, ScalarText.ReadsBack (scalars s) →
    f.decode (f.encode s) = if Scalar.allFinite (scalars s) then .ok (put s) else .error .mismatched

section

variable {α σ : Type} {c : Codec α} {scalars : α → List Float32} {depth : Nat}

/-- The field of a faithful codec. -/
theorem Codec.Faithful.required (h : c.Faithful scalars depth) (name : String) (get : σ → α)
    (set : α → σ → σ) :
    (c.required name get set).Faithful (fun s => scalars (get s)) (fun s => set (get s)) depth where
  readFault_encode s := h.readFault_encode (get s)
  settle_encode s := h.settle_encode (get s)
  decode_encode s hs := by
    show (c.decode (c.encode (get s))).map set = _
    rw [h.decode_encode (get s) hs]
    cases Scalar.allFinite (scalars (get s)) <;> rfl

/-- The field of a faithful codec that may be left out. -/
theorem Codec.Faithful.optional (h : c.Faithful scalars depth) (name : String) (get : σ → α)
    (set : α → σ → σ) :
    (c.optional name get set).Faithful (fun s => scalars (get s)) (fun s => set (get s)) depth :=
  have hfield := h.required name get set
  ⟨hfield.readFault_encode, hfield.settle_encode, hfield.decode_encode⟩

end

/-- The fields of a structure are faithful, and reading one after the other puts their values. -/
inductive FaithfulFields {σ : Type} (depth : Nat) :
    List (Field σ) → (σ → List Float32) → (σ → σ → σ) → Prop
  | nil : FaithfulFields depth [] (fun _ => []) (fun _ t => t)
  | cons {f : Field σ} {fs : List (Field σ)} {scalars rest : σ → List Float32}
      {put puts : σ → σ → σ} (head : f.Faithful scalars put depth)
      (tail : FaithfulFields depth fs rest puts) :
      FaithfulFields depth (f :: fs) (fun s => scalars s ++ rest s) (fun s t => puts s (put s t))

namespace FaithfulFields

variable {σ : Type} {depth : Nat} {fields : List (Field σ)} {scalars : σ → List Float32}
  {put : σ → σ → σ}

/-- Each of the fields is written without faults. -/
theorem readFault_encode (h : FaithfulFields depth fields scalars put) {s : σ}
    (hs : ScalarText.ReadsBack (scalars s)) {room : Nat} (hroom : depth ≤ room) :
    ∀ f ∈ fields, (f.encode s).readFault room = none := by
  induction h with
  | nil => exact List.forall_mem_nil _
  | cons head _ ih =>
    rw [ScalarText.readsBack_append] at hs
    exact List.forall_mem_cons.2 ⟨head.readFault_encode s hs.1 room hroom, ih hs.2⟩

/-- Each of the fields is written without repeated keys. -/
theorem settle_encode (h : FaithfulFields depth fields scalars put) (s : σ) :
    ∀ f ∈ fields, (f.encode s).settle = f.encode s := by
  induction h with
  | nil => exact List.forall_mem_nil _
  | cons head _ ih => exact List.forall_mem_cons.2 ⟨head.settle_encode s, ih⟩

end FaithfulFields

namespace Layout

variable {σ : Type}

/-- The members that a structure is written as. -/
def members (fields : List (Field σ)) (s : σ) : List (String × Json) :=
  fields.map fun f => (f.name, f.encode s)

/-- Members that are the last fields of a structure are read back, one after the other. -/
theorem decodeMembers_members {l : Layout σ} {depth : Nat} {fields : List (Field σ)}
    {scalars : σ → List Float32} {put : σ → σ → σ}
    (h : FaithfulFields depth fields scalars put)
    (hfind : ∀ f ∈ fields, l.fields.find? (·.name == f.name) = some f) (seen : List String)
    (hnew : ∀ f ∈ fields, f.name ∉ seen) (hnodup : (fields.map (·.name)).Nodup)
    (hall : ∀ f ∈ l.fields, f.name ∈ seen ∨ f ∈ fields) {s : σ}
    (hs : ScalarText.ReadsBack (scalars s)) (t : σ) :
    l.decodeMembers seen t (.ofList (members fields s)) =
      if Scalar.allFinite (scalars s) then .ok (put s t) else .error .mismatched := by
  -- With each step a field moves from those to come to those seen, so at the end all are seen.
  induction h generalizing seen t with
  | nil =>
    have hcomplete : l.fields.all (fun f => f.optional || seen.contains f.name) = true := by
      refine List.all_eq_true.2 fun f hf => ?_
      have hseen : f.name ∈ seen := (hall f hf).resolve_right List.not_mem_nil
      rw [List.contains_iff_mem.2 hseen, Bool.or_true]
    exact if_pos hcomplete
  | @cons f fields scalars rest put puts head tail ih =>
    rw [List.forall_mem_cons] at hfind hnew
    rw [List.map_cons, List.nodup_cons] at hnodup
    rw [ScalarText.readsBack_append] at hs
    have hunseen : seen.contains f.name = false := by
      rw [Bool.eq_false_iff, Ne, List.contains_iff_mem]
      exact hnew.1
    have hnew' : ∀ g ∈ fields, g.name ∉ f.name :: seen := by
      intro g hg hmem
      rcases List.mem_cons.1 hmem with heq | hmem
      · exact hnodup.1 (heq ▸ List.mem_map_of_mem hg)
      · exact hnew.2 g hg hmem
    have hall' : ∀ g ∈ l.fields, g.name ∈ f.name :: seen ∨ g ∈ fields := by
      intro g hg
      rcases hall g hg with hseen | hmem
      · exact .inl (.tail _ hseen)
      · rcases List.mem_cons.1 hmem with rfl | hmem
        · exact .inl (.head _)
        · exact .inr hmem
    rw [members, List.map_cons, Json.Members.ofList, decodeMembers, ← members,
      Scalar.allFinite_append]
    simp only [hfind.1, hunseen, Bool.false_eq_true, if_false, head.decode_encode s hs.1]
    cases Scalar.allFinite (scalars s) with
    | true =>
      simp only [if_true, Bool.true_and]
      exact ih hfind.2 (f.name :: seen) hnew' hnodup.2 hall' hs.2 (put s t)
    | false => rfl

/-- **A structure is read back if its fields are.** -/
theorem faithful {l : Layout σ} {depth : Nat} {scalars : σ → List Float32} {put : σ → σ → σ}
    (h : FaithfulFields depth l.fields scalars put) (hnodup : (l.fields.map (·.name)).Nodup)
    (hput : ∀ s, put s l.initial = s) : l.codec.Faithful scalars (depth + 1) where
  readFault_encode s hs room hroom := by
    obtain ⟨room, rfl⟩ : ∃ r, room = r + 1 := ⟨room - 1, by omega⟩
    refine Json.readFault_ofMembers fun m hm => ?_
    obtain ⟨f, hf, rfl⟩ := List.mem_map.1 hm
    exact h.readFault_encode hs (by omega) f hf
  settle_encode s := by
    refine Json.settle_ofMembers ?_ fun m hm => ?_
    · rw [List.map_map]
      exact hnodup
    · obtain ⟨f, hf, rfl⟩ := List.mem_map.1 hm
      exact h.settle_encode s f hf
  decode_encode s hs := by
    have hread := decodeMembers_members h (fun f hf => find?_name_eq hnodup hf) []
      (fun _ _ hseen => by cases hseen) hnodup (fun f hf => .inr hf) hs l.initial
    rwa [hput] at hread

end Layout

end

end PolicyValue
