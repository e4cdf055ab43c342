import Mathlib.Tactic.Common
import SealedStream.Proofs.Wire.Forward

/-!
What is said of a damaged record file is true: up to the place that an error names the image is the
front of a record file, and what stands there is what the error says.

A reader that stops has gone over some fields of a value that it could have read; the value is
completed behind the place at which it stops.
-/

namespace SealedStream

variable {α β : Type}

/-- What an error says of the bytes `left`, which stand at an offset where `field` could stand. -/
inductive DecodeError.Tells (offset : ℕ) (field left : Bytes) : DecodeError → Prop
  /-- The field is longer than what is left, by as much as is needed. -/
  | truncated {needed : ℕ} (lacking : 1 ≤ needed) (length : field.length = left.length + needed) :
    Tells offset field left (.truncated offset needed)
  | unknownTag {tag : UInt8} (stands : left.head? = some tag)
    (strange : tag ≠ Section.itemTag ∧ tag ≠ Section.endTag)
    (wanted : field = [Section.itemTag] ∨ field = [Section.endTag]) :
    Tells offset field left (.unknownTag offset tag)
  | negativeLength {length : Int32} (stands : Bytes.ofInt32 length <+: left)
    (negative : length < 0) (wanted : field.length = 4) :
    Tells offset field left (.negativeLength offset length)
  | hashLength {actual : ℕ} (stands : Bytes.ofNatBE 4 actual <+: left)
    (nonnegative : actual ≤ Field.maxPayload) (other : actual ≠ 48)
    (wanted : field = Bytes.ofNatBE 4 48) :
    Tells offset field left (.hashLength offset 48 actual)
  | unknownDigest {id : Int32} (stands : Bytes.ofInt32 id <+: left)
    (other : id ≠ DigestKind.sha384.id) (wanted : field = Bytes.ofInt32 DigestKind.sha384.id) :
    Tells offset field left (.value (.unknownDigest id))

/-! ### Layouts -/

/-- Which fields a value is made of. -/
abbrev Layout (α : Type) := α → List Field → Prop

namespace Layout

/-- The fields of one value, and behind them those of a value that depends on it. -/
def andThen (L : Layout α) (M : α → Layout β) : Layout β :=
  fun b zs => ∃ a xs ys, L a xs ∧ M a b ys ∧ zs = xs ++ ys

def Able (L : Layout α) : Prop := ∃ a xs bs, L a xs ∧ Field.join xs = .ok bs

def nothing (a : α) : Layout α := fun b xs => b = a ∧ xs = []

def given (fields : α → List Field) : Layout α := fun a xs => xs = fields a

lemma able_nothing (a : α) : (nothing a).Able := ⟨a, [], [], ⟨rfl, rfl⟩, rfl⟩

lemma Able.andThen {L : Layout α} {M : α → Layout β} (hL : L.Able)
    (hM : ∀ a xs, L a xs → (M a).Able) : (L.andThen M).Able := by
  obtain ⟨a, xs, bs, ha, hbs⟩ := hL
  obtain ⟨b, ys, cs, hb, hcs⟩ := hM a xs ha
  exact ⟨b, xs ++ ys, bs ++ cs, ⟨a, xs, ys, ha, hb, rfl⟩, Field.join_append_ok hbs hcs⟩

end Layout

/-- The image goes on from one place to another by these fields. -/
def Cursor.Passes (c d : Cursor) (fields : List Field) : Prop :=
  ∃ bs, Field.join fields = .ok bs ∧ c.rest = bs ++ d.rest ∧ d.offset = c.offset + bs.length

namespace Reader

variable {r : Reader α} {f : α → Reader β} {c d : Cursor} {L L' : Layout α} {M : α → Layout β}
  {xs ys : List Field} {a : α} {e : DecodeError} {n : ℕ}

lemma passes_trans {c₁ : Cursor} (h : c.Passes c₁ xs) (h' : c₁.Passes d ys) :
    c.Passes d (xs ++ ys) := by
  obtain ⟨bs, hbs, hrest, hoffset⟩ := h
  obtain ⟨cs, hcs, hrest', hoffset'⟩ := h'
  refine ⟨bs ++ cs, Field.join_append_ok hbs hcs, ?_, ?_⟩
  · rw [hrest, hrest', List.append_assoc]
  · rw [hoffset', hoffset, List.length_append, Nat.add_assoc]

lemma passes_of_spans (hreads : Reads r xs a) (h : r c = .ok (a, d)) (hspan : c.Spans d xs) :
    c.Passes d xs := by
  obtain ⟨bs, hbs, hrest⟩ := hspan
  have hread := hreads bs hbs d.rest c.offset
  rw [← hrest, h] at hread
  simp only [Except.ok.injEq, Prod.mk.injEq, true_and] at hread
  exact ⟨bs, hbs, hrest, congrArg Cursor.offset hread⟩

/-- Something is wrong with a field of a value that could stand here. -/
inductive Fault (L : Layout α) (c : Cursor) (e : DecodeError) : Prop
  | mk {a : α} {before behind : List Field} {field bs all left : Bytes}
    (value : L a (before ++ .ok field :: behind))
    (form : Field.join (before ++ .ok field :: behind) = .ok all)
    (front : Field.join before = .ok bs) (rest : c.rest = bs ++ left)
    (tells : e.Tells (c.offset + bs.length) field left)

/-- A field at this place, with nothing of the value before it. -/
lemma Fault.here {field : Bytes} {behind : List Field} {all : Bytes}
    (value : L a (.ok field :: behind)) (form : Field.join (.ok field :: behind) = .ok all)
    (tells : e.Tells c.offset field c.rest) : Fault L c e :=
  @Fault.mk _ L c e a [] _ _ _ _ _ value form rfl rfl tells

/-- A value that begins with what has been read is at fault as what follows is. -/
lemma Fault.after {N : Layout β} (h : Fault N d e) (hpass : c.Passes d xs)
    (hL : ∀ b ys, N b ys → ∃ a, L a (xs ++ ys)) : Fault L c e := by
  obtain @⟨_, _, _, _, _, _, left, value, form, front, rest, tells⟩ := h
  obtain ⟨bs, hbs, hrest, hoffset⟩ := hpass
  obtain ⟨a, ha⟩ := hL _ _ value
  have hform := Field.join_append_ok hbs form
  rw [← List.append_assoc] at ha hform
  refine .mk ha hform (Field.join_append_ok hbs front) (?_ : _ = _ ++ left) ?_
  · rw [hrest, rest, List.append_assoc]
  · rw [hoffset] at tells
    rwa [List.length_append, ← Nat.add_assoc]

/-- What the reader takes is laid out so, and what stops it is wrong with what is laid out so. -/
structure TruthfulAt (r : Reader α) (L : Layout α) (c : Cursor) : Prop where
  value : ∀ {a d}, r c = .ok (a, d) → ∃ xs, L a xs ∧ c.Passes d xs
  error : ∀ {e}, r c = .error e → Fault L c e

lemma TruthfulAt.mono (h : TruthfulAt r L c) (hL : ∀ a xs, L a xs → L' a xs) :
    TruthfulAt r L' c where
  value hok := by
    obtain ⟨xs, hxs, hpass⟩ := h.value hok
    exact ⟨xs, hL _ _ hxs, hpass⟩
  error herror := by
    obtain ⟨value, form, front, rest, tells⟩ := h.error herror
    exact .mk (hL _ _ value) form front rest tells

lemma TruthfulAt.bind (hr : TruthfulAt r L c) (hable : ∀ a xs, L a xs → (M a).Able)
    (hf : ∀ a d, r c = .ok (a, d) → TruthfulAt (f a) (M a) d) :
    TruthfulAt (r >>= f) (L.andThen M) c where
  value := by
    intro b d hok
    obtain ⟨a, c₁, ha, hb⟩ := bind_eq_ok.mp hok
    obtain ⟨xs, hxs, hpass⟩ := hr.value ha
    obtain ⟨ys, hys, hpass'⟩ := (hf a c₁ ha).value hb
    exact ⟨xs ++ ys, ⟨a, xs, ys, hxs, hys, rfl⟩, passes_trans hpass hpass'⟩
  error := by
    intro e herror
    rcases bind_eq_error.mp herror with herror | ⟨a, c₁, ha, herror⟩
    · -- the value is completed by any that can stand behind it
      obtain ⟨value, form, front, rest, tells⟩ := hr.error herror
      obtain ⟨b, ys, cs, hb, hcs⟩ := hable _ _ value
      have hform := Field.join_append_ok form hcs
      rw [List.append_assoc, List.cons_append] at hform
      refine .mk ⟨_, _, ys, value, hb, ?_⟩ hform front rest tells
      rw [List.append_assoc, List.cons_append]
    · obtain ⟨xs, hxs, hpass⟩ := hr.value ha
      exact ((hf a c₁ ha).error herror).after hpass fun b ys hb => ⟨b, a, xs, ys, hxs, hb, rfl⟩

/-- The reader is truthful wherever it stands, about values of which some can be written. -/
structure Truthful (r : Reader α) (L : Layout α) : Prop where
  able : L.Able
  everywhere : ∀ c, TruthfulAt r L c

lemma Truthful.mono (h : Truthful r L) (hL : ∀ a xs, L a xs → L' a xs) : Truthful r L' where
  able := by
    obtain ⟨a, xs, bs, hxs, hbs⟩ := h.able
    exact ⟨a, xs, bs, hL _ _ hxs, hbs⟩
  everywhere c := (h.everywhere c).mono hL

lemma Truthful.bind (hr : Truthful r L) (hf : ∀ a, Truthful (f a) (M a)) :
    Truthful (r >>= f) (L.andThen M) where
  able := hr.able.andThen fun a _ _ => (hf a).able
  everywhere c :=
    (hr.everywhere c).bind (fun a _ _ => (hf a).able) fun a d _ => (hf a).everywhere d

lemma truthful_pure (a : α) : Truthful (pure a) (.nothing a) where
  able := Layout.able_nothing a
  everywhere c := by
    refine ⟨?_, ?_⟩
    · rintro _ _ ⟨⟩
      exact ⟨[], ⟨rfl, rfl⟩, [], rfl, rfl, rfl⟩
    · rintro _ ⟨⟩

/-! ### Fields -/

lemma tells_of_take {field : Bytes} (h : take n c = .error e) (hfield : field.length = n) :
    e.Tells c.offset field c.rest := by
  rw [take_eq_ite] at h
  split at h
  · cases h
  · cases h
    exact .truncated (by omega) (by omega)

lemma tells_of_int32 {field : Bytes} (h : int32 c = .error e) (hfield : field.length = 4) :
    e.Tells c.offset field c.rest := by
  rcases bind_eq_error.mp h with h | ⟨_, _, _, ⟨⟩⟩
  exact tells_of_take h hfield

lemma position_bind (f : ℕ → Reader β) : (position >>= f) c = f c.offset c := rfl

lemma tells_of_length {field : Bytes} (h : length c = .error e) (hfield : field.length = 4) :
    e.Tells c.offset field c.rest := by
  rw [length, position_bind] at h
  rcases bind_eq_error.mp h with h | ⟨x, d, hx, h⟩
  · exact tells_of_int32 h hfield
  · split at h
    · rename_i hneg
      cases h
      obtain ⟨bs, hbs, hrest⟩ := spans_of_int32 hx
      cases join_singleton hbs
      exact .negativeLength ⟨d.rest, hrest.symm⟩ hneg hfield
    · cases h

lemma truthful_take (n : ℕ) :
    Truthful (take n) (fun bs xs => bs.length = n ∧ xs = [Field.raw bs]) := by
  have hzeros : (List.replicate n (0 : UInt8)).length = n := List.length_replicate
  refine ⟨⟨_, _, _, ⟨hzeros, rfl⟩, rfl⟩, fun c => ⟨fun h => ?_, fun h => ?_⟩⟩
  · obtain ⟨hlen, hspan⟩ := spans_of_take h
    exact ⟨_, ⟨hlen, rfl⟩, passes_of_spans (reads_take_of_length hlen) h hspan⟩
  · exact .here ⟨hzeros, rfl⟩ rfl (tells_of_take h hzeros)

lemma truthful_int32 : Truthful int32 (.given fun x => [Field.int32 x]) where
  able := ⟨0, _, _, rfl, rfl⟩
  everywhere _ :=
    ⟨fun h => ⟨_, rfl, passes_of_spans (reads_int32 _) h (spans_of_int32 h)⟩,
      fun h => .here (a := 0) rfl rfl (tells_of_int32 h (Bytes.length_ofInt32 0))⟩

lemma truthful_int64 : Truthful int64 (.given fun x => [Field.int64 x]) := by
  refine ((truthful_take 8).bind fun bs => truthful_pure (Bytes.toInt64 bs)).mono ?_
  rintro _ _ ⟨bs, _, _, ⟨hlen, rfl⟩, ⟨rfl, rfl⟩, rfl⟩
  show _ = [Field.int64 _]
  rw [Field.int64, Bytes.ofInt64_toInt64 hlen]
  rfl

lemma truthful_length : Truthful length
    (fun n xs => n ≤ Field.maxPayload ∧ xs = [Field.int32 (Int32.ofNat n)]) where
  able := ⟨0, _, _, ⟨Nat.zero_le _, rfl⟩, rfl⟩
  everywhere c := by
    refine ⟨fun h => ?_, fun h => ?_⟩
    · obtain ⟨hle, hspan⟩ := spans_of_length h
      exact ⟨_, ⟨hle, rfl⟩, passes_of_spans (reads_length_of_le hle) h hspan⟩
    · have htells := tells_of_length h (Bytes.length_ofInt32 (Int32.ofNat 0))
      exact .here ⟨Nat.zero_le _, rfl⟩ rfl htells

lemma truthful_payload : Truthful payload (.given Field.payload) := by
  refine (truthful_length.bind truthful_take).mono ?_
  rintro bs xs ⟨n, _, _, ⟨hle, rfl⟩, ⟨rfl, rfl⟩, rfl⟩
  simp [Layout.given, Field.payload, hle]

lemma tells_of_hashLength (h : length c = .ok (n, d)) (hn : n ≠ 48) :
    (DecodeError.hashLength c.offset 48 n).Tells c.offset (Bytes.ofNatBE 4 48) c.rest := by
  obtain ⟨hle, bs, hbs, hrest⟩ := spans_of_length h
  cases join_singleton hbs
  refine .hashLength ⟨d.rest, ?_⟩ hle hn rfl
  rw [hrest, Bytes.ofInt32, Int32.toUInt32_ofNat', UInt32.toNat_ofNat_of_lt']
  unfold Field.maxPayload at hle
  exact Nat.lt_of_le_of_lt hle (by decide)

lemma fault_of_digest
    (h : (length >>= fun n => if n ≠ 48 then fail (.hashLength c.offset 48 n) else
      take n >>= fun bs => ofValue (Hash.ofBytes bs)) c = .error e) :
    Fault (fun (k : Hash) xs => xs = [Field.int32 (Int32.ofNat 48), Field.raw k.bytes]) c e := by
  rcases bind_eq_error.mp h with h | ⟨n, d, hn, h⟩
  · exact .here (a := Hash.zero) rfl rfl (tells_of_length h (Bytes.length_ofInt32 _))
  by_cases hlen : n ≠ 48
  · rw [if_pos hlen] at h
    cases h
    exact .here (a := Hash.zero) rfl rfl (tells_of_hashLength hn hlen)
  rw [if_neg hlen] at h
  obtain rfl : n = 48 := not_not.mp hlen
  obtain ⟨hle, hspan⟩ := spans_of_length hn
  rcases bind_eq_error.mp h with h | ⟨bs, d', hbs, h⟩
  · have hrest : Fault (fun (k : Hash) xs => xs = [Field.raw k.bytes]) d e :=
      .here (a := Hash.zero) rfl rfl (tells_of_take h Hash.zero.size)
    refine hrest.after (passes_of_spans (reads_length_of_le hle) hn hspan) ?_
    rintro k _ rfl
    exact ⟨k, rfl⟩
  · rw [Hash.ofBytes, dif_pos (spans_of_take hbs).1] at h
    cases h

lemma truthful_hash : Truthful hash (.given Field.hash) where
  able := ⟨Hash.zero, _, _, rfl, rfl⟩
  everywhere c := by
    refine ⟨fun h => ⟨_, rfl, passes_of_spans (reads_hash _) h (spans_of_hash h)⟩, fun {e} h => ?_⟩
    rcases bind_eq_error.mp h with h | ⟨id, d, hid, h⟩
    · exact .here (a := Hash.zero) rfl rfl (tells_of_int32 h (Bytes.length_ofInt32 _))
    have hspan := spans_of_int32 hid
    by_cases hkind : id ≠ DigestKind.sha384.id
    · rw [DigestKind.ofId, if_neg hkind] at h
      cases h
      obtain ⟨bs, hbs, hrest⟩ := hspan
      cases join_singleton hbs
      exact .here (a := Hash.zero) rfl rfl (.unknownDigest ⟨d.rest, hrest.symm⟩ hkind rfl)
    obtain rfl : id = DigestKind.sha384.id := not_not.mp hkind
    refine (fault_of_digest h).after (passes_of_spans (reads_int32 _) hid hspan) ?_
    rintro k _ rfl
    refine ⟨k, ?_⟩
    rw [Layout.given, Field.hash, k.size]
    rfl

end Reader

/-! ### Record files -/

namespace RecordFile

open Reader

def itemFields (items : List Item) : List Field :=
  (items.map Section.item).flatMap Section.fields ++ [Field.raw [Section.endTag]]

lemma truthful_payloads : Truthful
    (payload >>= fun transaction => payload >>= fun record =>
      pure (Entry.item (.of transaction record)))
    (fun entry xs => ∃ i : Item, entry = .item i ∧
      xs = Field.payload i.transaction ++ Field.payload i.record) := by
  refine (truthful_payload.bind fun transaction => truthful_payload.bind fun record =>
    truthful_pure (Entry.item (.of transaction record))).mono ?_
  rintro _ _ ⟨transaction, _, _, rfl, ⟨record, _, _, rfl, ⟨rfl, rfl⟩, rfl⟩, rfl⟩
  exact ⟨.of transaction record, rfl, by rw [List.append_nil]; rfl⟩

lemma truthful_entry (c : Cursor) : TruthfulAt readEntry (.given Entry.fields) c where
  value := by
    intro entry d h
    have hreads : Reads readEntry entry.fields entry := by
      cases entry with
      | item i => exact reads_entry_item i
      | finish => exact reads_entry_finish
    exact ⟨_, rfl, passes_of_spans hreads h (spans_of_entry h)⟩
  error := by
    intro e h
    have hfinish : Layout.given Entry.fields .finish [.ok [Section.endTag]] := rfl
    rw [readEntry, position_bind] at h
    rcases bind_eq_error.mp h with h | ⟨tag, d, htag, h⟩
    · rcases bind_eq_error.mp h with h | ⟨_, _, _, ⟨⟩⟩
      exact .here hfinish rfl (tells_of_take h rfl)
    have hspan := spans_of_byte htag
    by_cases hitem : tag = Section.itemTag
    · subst hitem
      rw [if_pos rfl] at h
      have hpass := passes_of_spans (reads_byte Section.itemTag) htag hspan
      refine ((truthful_payloads.everywhere d).error h).after hpass ?_
      rintro _ _ ⟨i, rfl, rfl⟩
      exact ⟨Entry.item i, rfl⟩
    by_cases hend : tag = Section.endTag
    · rw [if_neg hitem, if_pos hend] at h
      cases h
    · rw [if_neg hitem, if_neg hend] at h
      cases h
      obtain ⟨bs, hbs, hrest⟩ := hspan
      cases join_singleton hbs
      have htells : (DecodeError.unknownTag c.offset tag).Tells c.offset [Section.endTag] c.rest :=
        .unknownTag (by rw [hrest]; rfl) ⟨hitem, hend⟩ (.inr rfl)
      exact .here hfinish rfl htells

/-- The items from an entry on, and what comes behind that entry. -/
def Entry.onward : Entry → Layout (List Item)
  | .finish => .nothing []
  | .item i => fun items xs => ∃ rest, items = i :: rest ∧ xs = itemFields rest

/-- The induction is on how much is left. Where an item goes wrong, the completed item is the last
one. -/
lemma truthfulAt_items (c : Cursor) : TruthfulAt readItems (.given itemFields) c := by
  induction hn : c.rest.length using Nat.strongRecOn generalizing c with
  | ind n ih =>
    have hentries : TruthfulAt readItems ((Layout.given Entry.fields).andThen Entry.onward) c := by
      rw [readItems_eq]
      refine (truthful_entry c).bind ?_ fun entry d hentry => ?_
      · rintro (i | _) xs -
        · exact ⟨[i], _, _, ⟨[], rfl, rfl⟩, rfl⟩
        · exact Layout.able_nothing []
      · cases entry with
        | finish => exact (truthful_pure []).everywhere d
        | item i =>
          have hitems := ih _ (hn ▸ readEntry_shrinks hentry) d rfl
          refine (hitems.bind (fun items _ _ => Layout.able_nothing (i :: items))
            fun items d' _ => (truthful_pure (i :: items)).everywhere d').mono ?_
          rintro _ _ ⟨items, _, _, rfl, ⟨rfl, rfl⟩, rfl⟩
          exact ⟨items, rfl, List.append_nil _⟩
    refine hentries.mono ?_
    rintro items _ ⟨i | _, _, _, rfl, honward, rfl⟩
    · obtain ⟨rest, rfl, rfl⟩ := honward
      simp [Layout.given, itemFields, Entry.fields]
    · obtain ⟨rfl, rfl⟩ := honward
      rfl

lemma truthful_items : Truthful readItems (.given itemFields) :=
  ⟨⟨[], _, _, rfl, rfl⟩, truthfulAt_items⟩

lemma truthful_reader : Truthful reader (.given fields) := by
  refine (truthful_int32.bind fun version => truthful_int32.bind fun major =>
    truthful_int32.bind fun minor => truthful_int32.bind fun patch =>
    truthful_hash.bind fun start => truthful_items.bind fun items =>
    truthful_hash.bind fun finish => truthful_int64.bind fun block =>
    truthful_pure (RecordFile.mk version ⟨major, minor, patch⟩ start items finish block)).mono ?_
  rintro _ _ ⟨version, _, _, rfl, ⟨major, _, _, rfl, ⟨minor, _, _, rfl, ⟨patch, _, _, rfl,
    ⟨start, _, _, rfl, ⟨items, _, _, rfl, ⟨finish, _, _, rfl, ⟨block, _, _, rfl, ⟨rfl, rfl⟩,
    rfl⟩, rfl⟩, rfl⟩, rfl⟩, rfl⟩, rfl⟩, rfl⟩, rfl⟩
  simp [Layout.given, fields, itemFields]

/-- Up to `offset` the image is the front of a record file, in which `field` comes next. -/
structure Viable (image : Bytes) (offset : ℕ) (field : Bytes) : Prop where
  within : offset ≤ image.length
  file : ∃ (f : RecordFile) (all : Bytes) (before behind : List Field), decode all = .ok f ∧
    f.fields = before ++ .ok field :: behind ∧ Field.join before = .ok (image.take offset) ∧
      image.take offset ++ field <+: all

variable {image : Bytes} {e : DecodeError}

lemma viable_of_fault (h : Fault (.given fields) ⟨image, 0⟩ e) :
    ∃ offset field, Viable image offset field ∧ e.Tells offset field (image.drop offset) := by
  obtain @⟨f, before, behind, field, front, all, left, value, form, hfront, rest, tells⟩ := h
  obtain rfl : image = front ++ left := rest
  have hdecode : decode all = .ok f := by
    refine decode_of_encode ?_
    rwa [encode_eq_join, ← value]
  obtain ⟨_, _, h, hback, rfl⟩ := Field.join_append_eq_ok form
  cases hfront.symm.trans h
  obtain ⟨_, back, hfield, -, rfl⟩ := @Field.join_append_eq_ok [.ok field] _ _ hback
  cases join_singleton hfield
  refine ⟨front.length, field, ⟨by simp, f, _, before, behind, hdecode, value.symm, ?_, ?_⟩, ?_⟩
  · rwa [List.take_left]
  · rw [List.take_left]
    exact ⟨back, List.append_assoc _ _ _⟩
  · rw [List.drop_left]
    simpa using tells

/-- **What is said of a damaged record file is true.** An image that is refused goes on behind a
record file, or it is the front of one up to a place at which what the error says is so. -/
theorem decode_error_tells (h : decode image = .error e) :
    (∃ offset field, Viable image offset field ∧ e.Tells offset field (image.drop offset)) ∨
      ∃ remaining f, e = .trailingBytes remaining ∧ 1 ≤ remaining ∧ remaining ≤ image.length ∧
        decode (image.take (image.length - remaining)) = .ok f := by
  rw [decode, run_eq] at h
  split at h
  · rename_i herror
    cases h
    exact .inl (viable_of_fault ((truthful_reader.everywhere _).error herror))
  · rename_i f d hread
    split at h
    · cases h
    rename_i hleft
    cases h
    obtain ⟨xs, rfl, front, hfront, hrest, -⟩ := (truthful_reader.everywhere _).value hread
    obtain rfl : image = front ++ d.rest := hrest
    refine .inr ⟨_, f, rfl, List.length_pos_iff.mpr hleft, by simp, decode_of_encode ?_⟩
    rw [encode_eq_join, hfront, List.length_append, Nat.add_sub_cancel, List.take_left]

/-- A file that ends in the length of an item, which is negative. -/
def negative : Bytes :=
  Section.headerBytes [6, 0, 49, 0] ++ Bytes.ofInt32 DigestKind.sha384.id ++ Bytes.ofNatBE 4 48 ++
    Hash.zero.bytes ++ [Section.itemTag] ++ Bytes.ofInt32 (-1)

theorem decode_error_tells_negative : decode negative = .error (.negativeLength 73 (-1)) ∧
    ((∃ offset field, Viable negative offset field ∧
      (DecodeError.negativeLength 73 (-1)).Tells offset field (negative.drop offset)) ∨
      ∃ remaining f, DecodeError.negativeLength 73 (-1) = .trailingBytes remaining ∧
        1 ≤ remaining ∧ remaining ≤ negative.length ∧
          decode (negative.take (negative.length - remaining)) = .ok f) := by
  have h : decode negative = .error (.negativeLength 73 (-1)) := by
    rw [decode, reader, readItems_eq]
    decide +kernel
  exact ⟨h, decode_error_tells h⟩

end RecordFile

end SealedStream
