import Mathlib.Tactic.Common
import SealedStream.Proofs.Digits
import SealedStream.Proofs.Record.Image
import SealedStream.Wire.Reader

/-!
Readers that read back what fields write, whatever comes behind, and take nothing else: what they
have gone over is the image of those fields.
-/

namespace SealedStream

/-- What lies between two places in an image is the image of these fields. -/
def Cursor.Spans (c c' : Cursor) (fields : List Field) : Prop :=
  ∃ bs, Field.join fields = .ok bs ∧ c.rest = bs ++ c'.rest

lemma Cursor.Spans.trans {c d e : Cursor} {xs ys : List Field} (h : c.Spans d xs)
    (h' : d.Spans e ys) : c.Spans e (xs ++ ys) := by
  obtain ⟨a, ha, hc⟩ := h
  obtain ⟨b, hb, hd⟩ := h'
  exact ⟨a ++ b, Field.join_append_ok ha hb, by rw [hc, hd, List.append_assoc]⟩

namespace Reader

variable {α β : Type} {r : Reader α} {a : α} {b : β} {f : α → Reader β} {xs : List Field}

/-- The reader takes the image of the fields off the front of an image, and gives `a` for it. -/
def Reads (r : Reader α) (fields : List Field) (a : α) : Prop :=
  ∀ bs, Field.join fields = .ok bs → ∀ rest offset,
    r ⟨bs ++ rest, offset⟩ = .ok (a, ⟨rest, offset + bs.length⟩)

lemma Reads.bind {x y : List Field} (hr : Reads r x a) (hf : Reads (f a) y b) :
    Reads (r >>= f) (x ++ y) b := by
  intro bs h rest offset
  obtain ⟨bs, bs', hx, hy, rfl⟩ := Field.join_append_eq_ok h
  refine bind_eq_ok.mpr ⟨a, ⟨bs' ++ rest, offset + bs.length⟩, ?_, ?_⟩
  · rw [List.append_assoc]
    exact hr bs hx _ _
  · rw [List.length_append, ← Nat.add_assoc]
    exact hf bs' hy _ _

lemma reads_pure (a : α) : Reads (pure a) [] a := by
  rintro bs ⟨⟩ rest offset
  rfl

lemma Reads.then_pure (hr : Reads r xs a) (hf : f a = pure b) : Reads (r >>= f) xs b := by
  have hpure : Reads (f a) [] b := by
    rw [hf]
    exact reads_pure b
  simpa using hr.bind hpure

lemma reads_position {f : ℕ → Reader β} (h : ∀ n, Reads (f n) xs b) :
    Reads (position >>= f) xs b := by
  intro bs hbs rest offset
  exact h offset bs hbs rest offset

/-! ### Fields -/

lemma join_singleton {field : Field} {bs : Bytes} (h : Field.join [field] = .ok bs) :
    field = .ok bs := by
  cases field with
  | error e => cases h
  | ok xs =>
    simp only [Field.join, Except.map, List.append_nil] at h
    exact h

lemma reads_take (bs : Bytes) : Reads (take bs.length) [Field.raw bs] bs := by
  intro image h rest offset
  cases join_singleton h
  simp [take]

lemma reads_take_of_length {n : ℕ} {bs : Bytes} (h : bs.length = n) :
    Reads (take n) [Field.raw bs] bs := by
  subst h
  exact reads_take bs

lemma reads_byte (c : UInt8) : Reads byte [Field.raw [c]] c :=
  (reads_take [c]).then_pure rfl

lemma reads_int32 (x : Int32) : Reads int32 [Field.int32 x] x :=
  (reads_take_of_length (Bytes.length_ofInt32 x)).then_pure (by rw [Bytes.toInt32_ofInt32])

lemma reads_int64 (x : Int64) : Reads int64 [Field.int64 x] x :=
  (reads_take_of_length (Bytes.length_ofInt64 x)).then_pure (by rw [Bytes.toInt64_ofInt64])

lemma reads_length_of_le {n : ℕ} (h : n ≤ Field.maxPayload) :
    Reads length [Field.int32 (Int32.ofNat n)] n := by
  refine reads_position fun offset => ?_
  have hn : (Int32.ofNat n).toInt = n := by
    unfold Field.maxPayload at h
    rw [Int32.toInt_ofNat_of_lt (by omega)]
  have hneg : ¬Int32.ofNat n < 0 := by
    rw [Int32.lt_iff_toInt_lt, hn]
    simp
  refine (reads_int32 _).then_pure ?_
  rw [if_neg hneg, hn]
  rfl

lemma reads_payload (bs : Bytes) : Reads payload (Field.payload bs) bs := by
  by_cases h : bs.length ≤ Field.maxPayload
  · rw [Field.payload, if_pos h]
    exact (reads_length_of_le h).bind (y := [_]) (reads_take bs)
  · intro image himage
    rw [Field.payload, if_neg h] at himage
    cases himage

lemma reads_hash (h : Hash) : Reads hash (Field.hash h) h := by
  have hsize : h.bytes.length = DigestKind.sha384.length := h.size
  refine (reads_int32 _).bind (y := [_, _]) ?_
  have hkind : DigestKind.ofId DigestKind.sha384.id = .ok .sha384 := rfl
  show Reads (ofValue (DigestKind.ofId DigestKind.sha384.id) >>= _) _ _
  rw [hkind]
  refine (reads_pure DigestKind.sha384).bind (x := []) (reads_position fun offset => ?_)
  refine (reads_length_of_le (by rw [h.size]; decide)).bind (y := [_]) ?_
  rw [if_neg (by rw [hsize]; simp)]
  refine (reads_take h.bytes).then_pure ?_
  rw [Hash.ofBytes, dif_pos h.size]
  rfl

/-- **A whole image** is read back, if nothing is left of it. -/
theorem run_eq_ok {bs : Bytes} (hr : Reads r xs a) (h : Field.join xs = .ok bs) :
    r.run bs = .ok a := by
  have hread := hr bs h [] 0
  rw [List.append_nil] at hread
  have hall : (do let a ← r; done; return a : Reader α) ⟨bs, 0⟩ = .ok (a, ⟨[], 0 + bs.length⟩) :=
    bind_eq_ok.mpr ⟨a, _, hread, rfl⟩
  rw [run, hall]
  rfl

/-! ### What has been read -/

section

variable {c c' : Cursor}

lemma spans_of_take {n : ℕ} {bs : Bytes} (h : take n c = .ok (bs, c')) :
    bs.length = n ∧ c.Spans c' [Field.raw bs] := by
  simp only [take] at h
  split at h
  · rename_i hlen
    cases h
    refine ⟨hlen, c.rest.take n, ?_, (List.take_append_drop n c.rest).symm⟩
    simp [Field.raw, Field.join, Except.map]
  · cases h

lemma spans_of_byte {x : UInt8} (h : byte c = .ok (x, c')) : c.Spans c' [Field.raw [x]] := by
  obtain ⟨bs, d, hbs, hx⟩ := bind_eq_ok.mp h
  obtain ⟨rfl, rfl⟩ := pure_eq_ok.mp hx
  obtain ⟨hlen, hspan⟩ := spans_of_take hbs
  obtain ⟨x, rfl⟩ := List.length_eq_one_iff.mp hlen
  exact hspan

lemma spans_of_int32 {x : Int32} (h : int32 c = .ok (x, c')) : c.Spans c' [Field.int32 x] := by
  obtain ⟨bs, d, hbs, hx⟩ := bind_eq_ok.mp h
  obtain ⟨rfl, rfl⟩ := pure_eq_ok.mp hx
  obtain ⟨hlen, hspan⟩ := spans_of_take hbs
  rwa [Field.int32, Bytes.ofInt32_toInt32 hlen]

lemma spans_of_int64 {x : Int64} (h : int64 c = .ok (x, c')) : c.Spans c' [Field.int64 x] := by
  obtain ⟨bs, d, hbs, hx⟩ := bind_eq_ok.mp h
  obtain ⟨rfl, rfl⟩ := pure_eq_ok.mp hx
  obtain ⟨hlen, hspan⟩ := spans_of_take hbs
  rwa [Field.int64, Bytes.ofInt64_toInt64 hlen]

lemma spans_of_length {n : ℕ} (h : length c = .ok (n, c')) :
    n ≤ Field.maxPayload ∧ c.Spans c' [Field.int32 (Int32.ofNat n)] := by
  obtain ⟨offset, d, hoffset, h⟩ := bind_eq_ok.mp h
  cases hoffset
  obtain ⟨x, e, hx, h⟩ := bind_eq_ok.mp h
  split at h
  · cases h
  · rename_i hneg
    obtain ⟨rfl, rfl⟩ := pure_eq_ok.mp h
    have hle := x.toInt_lt
    have hnonneg : 0 ≤ x.toInt := by
      rw [Int32.lt_iff_toInt_lt] at hneg
      simpa using hneg
    have hback : Int32.ofNat x.toInt.toNat = x := by
      apply Int32.toInt_inj.mp
      rw [Int32.toInt_ofNat_of_lt (by omega)]
      omega
    refine ⟨?_, ?_⟩
    · unfold Field.maxPayload
      omega
    · rw [hback]
      exact spans_of_int32 hx

lemma spans_of_payload {bs : Bytes} (h : payload c = .ok (bs, c')) :
    c.Spans c' (Field.payload bs) := by
  obtain ⟨n, d, hn, hbs⟩ := bind_eq_ok.mp h
  obtain ⟨hle, hlength⟩ := spans_of_length hn
  obtain ⟨rfl, hraw⟩ := spans_of_take hbs
  rw [Field.payload, if_pos hle]
  exact hlength.trans hraw

lemma ofValue_eq_ok {v : Except ValueError α} (h : ofValue v c = .ok (a, c')) :
    v = .ok a ∧ c = c' := by
  cases v with
  | error e => cases h
  | ok b =>
    obtain ⟨rfl, rfl⟩ := pure_eq_ok.mp h
    exact ⟨rfl, rfl⟩

lemma spans_of_hash {k : Hash} (h : hash c = .ok (k, c')) : c.Spans c' (Field.hash k) := by
  obtain ⟨id, d₁, hid, h⟩ := bind_eq_ok.mp h
  obtain ⟨kind, d₂, hvalue, h⟩ := bind_eq_ok.mp h
  obtain ⟨hkind, rfl⟩ := ofValue_eq_ok hvalue
  obtain ⟨offset, d₃, hoffset, h⟩ := bind_eq_ok.mp h
  cases hoffset
  obtain ⟨n, d₄, hn, h⟩ := bind_eq_ok.mp h
  split at h
  · cases h
  · rename_i hlen
    obtain ⟨bs, d₅, hbs, h⟩ := bind_eq_ok.mp h
    obtain ⟨hk, rfl⟩ := ofValue_eq_ok h
    obtain rfl : id = DigestKind.sha384.id := by
      by_contra hne
      simp [DigestKind.ofId, hne] at hkind
    have hbytes : bs = k.bytes := by
      unfold Hash.ofBytes at hk
      split at hk
      · cases hk
        rfl
      · cases hk
    subst hbytes
    obtain ⟨rfl, hraw⟩ := spans_of_take hbs
    exact (spans_of_int32 hid).trans ((spans_of_length hn).2.trans hraw)

lemma read_of_run {image : Bytes} (h : r.run image = .ok a) :
    ∃ c', r ⟨image, 0⟩ = .ok (a, c') ∧ c'.rest = [] := by
  obtain ⟨⟨b, d⟩, hall, rfl⟩ : ∃ p, (do let a ← r; done; return a : Reader α) ⟨image, 0⟩ = .ok p ∧
      p.1 = a := by
    unfold run at h
    cases hall : (do let a ← r; done; return a : Reader α) ⟨image, 0⟩ with
    | error e =>
      rw [hall] at h
      cases h
    | ok p =>
      rw [hall] at h
      cases h
      exact ⟨p, rfl, rfl⟩
  obtain ⟨a', d₁, hread, hrest⟩ := bind_eq_ok.mp hall
  obtain ⟨_, d₂, hdone, hpure⟩ := bind_eq_ok.mp hrest
  obtain ⟨rfl, rfl⟩ := pure_eq_ok.mp hpure
  refine ⟨d₁, hread, ?_⟩
  unfold done at hdone
  split at hdone
  · assumption
  · cases hdone

/-- **A whole image** that is read is the image of what was read. -/
theorem join_of_run {image : Bytes} (hspan : ∀ {c c'}, r c = .ok (a, c') → c.Spans c' xs)
    (h : r.run image = .ok a) : Field.join xs = .ok image := by
  obtain ⟨c', hread, hempty⟩ := read_of_run h
  obtain ⟨bs, hbs, himage⟩ := hspan hread
  rw [hempty, List.append_nil] at himage
  rw [hbs, ← himage]

end

end Reader

end SealedStream
