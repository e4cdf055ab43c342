import Mathlib.Tactic.Common
import SealedStream.Proofs.Digits
import SealedStream.Proofs.Record.Image

/-!
What a metadata hash binds: the content of a file that holds, unless the digest itself gives way.

The chains of two files that end in the same running hash are walked back from there, item by item.
On the way either two strings show up that differ and have one digest, or the items agree as far
back as the shorter file goes.
-/

namespace SealedStream

/-- Two different strings with one digest are among those that have been digested. -/
def Collision (digested : List Bytes) : Prop :=
  ∃ x ∈ digested, ∃ y ∈ digested, x ≠ y ∧ Hash.digest x = Hash.digest y

lemma Collision.mono {xs ys : List Bytes} (h : Collision xs) (hsub : xs ⊆ ys) : Collision ys := by
  obtain ⟨x, hx, y, hy, hne, hdigest⟩ := h
  exact ⟨x, hsub hx, y, hsub hy, hne, hdigest⟩

/-- Strings with one digest are the same, or have been caught. -/
lemma eq_or_collision {l : List Bytes} {x y : Bytes} (hx : x ∈ l) (hy : y ∈ l)
    (h : Hash.digest x = Hash.digest y) : x = y ∨ Collision l := by
  by_cases hxy : x = y
  · exact Or.inl hxy
  · exact Or.inr ⟨x, hx, y, hy, hxy, h⟩

lemma Hash.bytes_append_inj {a b : Hash} {xs ys : Bytes} (h : a.bytes ++ xs = b.bytes ++ ys) :
    a = b ∧ xs = ys := by
  obtain ⟨hab, hxs⟩ := List.append_inj h (by rw [a.size, b.size])
  exact ⟨Hash.ext hab, hxs⟩

/-! ### Items -/

namespace Item

lemma lengthField_inj {xs ys : Bytes} (hx : xs.length ≤ Field.maxPayload)
    (hy : ys.length ≤ Field.maxPayload) (h : lengthField xs = lengthField ys) :
    xs.length = ys.length := by
  have hnumber : Int32.ofNat xs.length = Int32.ofNat ys.length := by
    simpa [lengthField] using congrArg Bytes.toInt32 h
  have hvalue := congrArg Int32.toInt hnumber
  rw [Int32.toInt_ofNat_of_lt (by unfold Field.maxPayload at hx; omega),
    Int32.toInt_ofNat_of_lt (by unfold Field.maxPayload at hy; omega)] at hvalue
  exact Int.ofNat.inj hvalue

lemma payload_append_inj {xs ys r t : Bytes} (hx : xs.length ≤ Field.maxPayload)
    (hy : ys.length ≤ Field.maxPayload)
    (h : lengthField xs ++ xs ++ r = lengthField ys ++ ys ++ t) : xs = ys ∧ r = t := by
  rw [List.append_assoc, List.append_assoc] at h
  obtain ⟨hlength, hrest⟩ := List.append_inj h (by simp [lengthField])
  exact List.append_inj hrest (lengthField_inj hx hy hlength)

/-- **The image of an item is unambiguous**: no byte moves from one payload to the other. -/
lemma image_inj {i j : Item} (hi : i.Fits) (hj : j.Fits) (h : i.image = j.image) : i = j := by
  obtain ⟨htransaction, hrest⟩ := payload_append_inj hi.1 hj.1 h
  obtain ⟨hrecord, -⟩ := payload_append_inj (r := []) (t := []) hi.2 hj.2 (by simpa using hrest)
  exact Item.ext htransaction hrecord

end Item

/-! ### Chains -/

namespace RunningHash

/-- What is digested on the way from a running hash over items: the image of each item, and the
running hash before it together with the item's hash. -/
def digested : (start : Hash) → List Item → List Bytes
  | _, [] => []
  | start, i :: items =>
    i.image :: (start.bytes ++ i.hash.bytes) :: digested (advance start i) items

lemma digested_append (start : Hash) (xs ys : List Item) :
    digested start (xs ++ ys) = digested start xs ++ digested (after start xs) ys := by
  induction xs generalizing start with
  | nil => rfl
  | cons i xs ih => simp [digested, ih]

lemma digested_concat (start : Hash) (xs : List Item) (i : Item) :
    digested start (xs ++ [i]) =
      digested start xs ++ [i.image, (after start xs).bytes ++ i.hash.bytes] := by
  rw [digested_append]
  rfl

lemma after_concat (start : Hash) (xs : List Item) (i : Item) :
    after start (xs ++ [i]) = Hash.digest ((after start xs).bytes ++ i.hash.bytes) := by
  rw [after_append]
  rfl

lemma last_step {s t : Hash} {xs ys : List Item} {i j : Item} (hi : i.Fits) (hj : j.Fits)
    (h : after s (xs ++ [i]) = after t (ys ++ [j])) :
    (i = j ∧ after s xs = after t ys) ∨
      Collision (digested s (xs ++ [i]) ++ digested t (ys ++ [j])) := by
  rw [after_concat, after_concat] at h
  rcases eq_or_collision (l := digested s (xs ++ [i]) ++ digested t (ys ++ [j]))
    (by simp [digested_concat]) (by simp [digested_concat]) h with hstep | hcollision
  · obtain ⟨hafter, hhash⟩ := Hash.bytes_append_inj hstep
    rcases eq_or_collision (l := digested s (xs ++ [i]) ++ digested t (ys ++ [j]))
      (by simp [digested_concat]) (by simp [digested_concat]) (Hash.ext hhash)
      with himage | hcollision
    · exact Or.inl ⟨Item.image_inj hi hj himage, hafter⟩
    · exact Or.inr hcollision
  · exact Or.inr hcollision

/-- **Chains with one end** share their items as far back as the shorter one goes, or a collision
is among what they digest. -/
lemma common_suffix {s t : Hash} {xs ys : List Item} (hx : ∀ i ∈ xs, i.Fits)
    (hy : ∀ i ∈ ys, i.Fits) (h : after s xs = after t ys) :
    (∃ front, xs = front ++ ys ∧ after s front = t) ∨
      (∃ front, ys = front ++ xs ∧ after t front = s) ∨
      Collision (digested s xs ++ digested t ys) := by
  induction xs using List.reverseRecOn generalizing ys with
  | nil => exact Or.inr (Or.inl ⟨ys, (List.append_nil ys).symm, h.symm⟩)
  | append_singleton xs i ih =>
    rcases List.eq_nil_or_concat ys with rfl | ⟨ys, j, rfl⟩
    · exact Or.inl ⟨xs ++ [i], (List.append_nil _).symm, h⟩
    rw [List.concat_eq_append] at *
    rcases last_step (hx i (by simp)) (hy j (by simp)) h with ⟨rfl, hbefore⟩ | hcollision
    · rcases ih (fun i hi => hx i (List.mem_append_left _ hi))
          (fun i hi => hy i (List.mem_append_left _ hi)) hbefore
        with ⟨front, rfl, hfront⟩ | ⟨front, rfl, hfront⟩ | hcollision
      · exact Or.inl ⟨front, List.append_assoc _ _ _, hfront⟩
      · exact Or.inr (Or.inl ⟨front, List.append_assoc _ _ _, hfront⟩)
      · refine Or.inr (Or.inr (hcollision.mono ?_))
        rw [digested_concat, digested_concat]
        exact List.append_subset.mpr ⟨fun x hx => by simp [hx], fun x hx => by simp [hx]⟩
    · exact Or.inr (Or.inr hcollision)

lemma verify_ok_iff {start finish : Hash} {items : List Item} :
    verify start items finish = .ok () ↔ after start items = finish := by
  unfold verify
  split <;> simp_all

end RunningHash

/-! ### Files -/

namespace RecordFile

variable {f g : RecordFile}

def metadataImage (f : RecordFile) : Bytes :=
  Section.headerBytes f.header ++ f.start.bytes ++ f.finish.bytes ++ Bytes.ofInt64 f.block

lemma metadataHash_eq_digest (f : RecordFile) : f.metadataHash = Hash.digest f.metadataImage := rfl

/-- All that is digested while a file's metadata hash is taken and its chain is verified. -/
def digested (f : RecordFile) : List Bytes :=
  f.metadataImage :: RunningHash.digested f.start f.items

lemma headerBytes_inj {a b : Int32} {xs ys : List Int32}
    (h : Section.headerBytes (a :: xs) = Section.headerBytes (b :: ys)) :
    a = b ∧ Section.headerBytes xs = Section.headerBytes ys := by
  rw [Section.headerBytes, Section.headerBytes, List.flatMap_cons, List.flatMap_cons] at h
  obtain ⟨hab, hrest⟩ := List.append_inj h (by simp)
  exact ⟨by simpa using congrArg Bytes.toInt32 hab, hrest⟩

lemma header_inj {p q : Version} {m n : Int32}
    (h : Section.headerBytes [m, p.major, p.minor, p.patch] =
      Section.headerBytes [n, q.major, q.minor, q.patch]) : m = n ∧ p = q := by
  obtain ⟨hversion, h⟩ := headerBytes_inj h
  obtain ⟨hmajor, h⟩ := headerBytes_inj h
  obtain ⟨hminor, h⟩ := headerBytes_inj h
  obtain ⟨hpatch, -⟩ := headerBytes_inj h
  cases p
  cases q
  cases hmajor
  cases hminor
  cases hpatch
  exact ⟨hversion, rfl⟩

/-- **The metadata image has a fixed layout**: it is that of all files that differ in their items
only. -/
lemma metadataImage_inj (h : f.metadataImage = g.metadataImage) :
    f = { g with items := f.items } := by
  simp only [metadataImage, List.append_assoc] at h
  obtain ⟨hheader, h⟩ := List.append_inj h (by simp [Section.headerBytes, header])
  obtain ⟨hstart, h⟩ := Hash.bytes_append_inj h
  obtain ⟨hfinish, hblock⟩ := Hash.bytes_append_inj h
  have hblock : f.block = g.block := by simpa using congrArg Bytes.toInt64 hblock
  obtain ⟨hversion, hprotocol⟩ := header_inj hheader
  cases f
  cases g
  cases hversion
  cases hprotocol
  cases hstart
  cases hfinish
  cases hblock
  rfl

/-- The file is another one behind further items, which lead from its start hash back to it. -/
def Loops (f g : RecordFile) : Prop :=
  ∃ front, front ≠ [] ∧ f = { g with items := front ++ g.items } ∧
    RunningHash.after g.start front = g.start

/-- **A metadata hash binds the whole content of a file that holds**: two files that hold and have
one metadata hash are the same, or a collision is among the strings that are digested for them, or
one of them is the other behind items whose running hash comes back to the start hash. -/
theorem eq_or_collision_of_metadataHash (hf : ∀ i ∈ f.items, i.Fits) (hg : ∀ i ∈ g.items, i.Fits)
    (hfc : f.verifyChain = .ok ()) (hgc : g.verifyChain = .ok ())
    (h : f.metadataHash = g.metadataHash) :
    f = g ∨ Collision (f.digested ++ g.digested) ∨ f.Loops g ∨ g.Loops f := by
  rw [metadataHash_eq_digest, metadataHash_eq_digest] at h
  rcases eq_or_collision (l := f.digested ++ g.digested) (by simp [digested]) (by simp [digested])
    h with himage | hcollision
  swap
  · exact Or.inr (Or.inl hcollision)
  have hfg := metadataImage_inj himage
  have hstart : f.start = g.start := by rw [hfg]
  have hfinish : f.finish = g.finish := by rw [hfg]
  have hafter : RunningHash.after f.start f.items = RunningHash.after g.start g.items := by
    rw [RunningHash.verify_ok_iff.mp hfc, RunningHash.verify_ok_iff.mp hgc, hfinish]
  rcases RunningHash.common_suffix hf hg hafter
    with ⟨front, hitems, hfront⟩ | ⟨front, hitems, hfront⟩ | hcollision
  · rw [hstart] at hfront
    by_cases hnil : front = []
    · refine Or.inl ?_
      rw [hfg, hitems, hnil, List.nil_append]
    · exact Or.inr (Or.inr (Or.inl ⟨front, hnil, by rw [← hitems]; exact hfg, hfront⟩))
  · have hgf := metadataImage_inj himage.symm
    rw [← hstart] at hfront
    by_cases hnil : front = []
    · refine Or.inl ?_
      rw [hgf, hitems, hnil, List.nil_append]
    · exact Or.inr (Or.inr (Or.inr ⟨front, hnil, by rw [← hitems]; exact hgf, hfront⟩))
  · refine Or.inr (Or.inl (hcollision.mono ?_))
    exact List.append_subset.mpr
      ⟨fun x hx => by simp [digested, hx], fun x hx => by simp [digested, hx]⟩

def single : RecordFile :=
  ⟨6, ⟨0, 57, 2⟩, .zero, [.of [0x0a, 0x0b] [0x0c]],
    RunningHash.after .zero [.of [0x0a, 0x0b] [0x0c]], 18⟩

theorem eq_or_collision_of_metadataHash_single :
    (∀ i ∈ single.items, i.Fits) ∧ single.verifyChain = .ok () ∧
      (single = single ∨ Collision (single.digested ++ single.digested) ∨ single.Loops single ∨
        single.Loops single) := by
  have hfits : ∀ i ∈ single.items, i.Fits := by decide
  have hholds : single.verifyChain = .ok () := RunningHash.verify_ok_iff.mpr rfl
  exact ⟨hfits, hholds, eq_or_collision_of_metadataHash hfits hfits hholds hholds rfl⟩

end RecordFile

end SealedStream
