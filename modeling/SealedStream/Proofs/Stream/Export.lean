import SealedStream.Proofs.Storage.DiskView
import SealedStream.Proofs.Storage.FaultyView
import SealedStream.Proofs.Stream.Outset

/-!
Export directories on a disk: the names of all files of a stream are short enough for it, if
directory and extensions are.
-/

namespace SealedStream

/-! ### Lengths of texts -/

lemma utf8ByteSize_ofList_append (xs ys : List Char) : (String.ofList (xs ++ ys)).utf8ByteSize =
    (String.ofList xs).utf8ByteSize + (String.ofList ys).utf8ByteSize := by
  rw [String.ofList_append, String.utf8ByteSize_append]

lemma utf8ByteSize_ofList_le (cs : List Char) :
    (String.ofList cs).utf8ByteSize ≤ 4 * cs.length := by
  induction cs with
  | nil => simp
  | cons c cs ih =>
    have hc : (String.ofList [c]).utf8ByteSize = c.utf8Size := by
      rw [← String.singleton_eq_ofList, String.utf8ByteSize_singleton]
    have hle := c.utf8Size_le_four
    rw [← List.singleton_append, utf8ByteSize_ofList_append, hc, List.length_append]
    simp only [List.length_singleton]
    omega

lemma Date.ofDays_le (days : ℤ) : (ofDays days).month ≤ 12 ∧ (ofDays days).day ≤ 31 := by
  have hdoe : ((days + epochDay) % eraDays).toNat < 146097 := by
    unfold eraDays epochDay
    omega
  obtain ⟨-, hend⟩ := yearStart_le hdoe
  unfold ofDays
  simp only
  generalize ((days + epochDay) % eraDays).toNat = doe at *
  obtain ⟨doy, hdoy⟩ : ∃ doy, doy = doe - yearStart (yearOfEra doe) := ⟨_, rfl⟩
  have hlt : doy < 366 := by omega
  rw [← hdoy]
  unfold monthStart
  split <;> simp only <;> omega

namespace Moment

open Decimal (length_padded)

lemma length_yearText_le {year : ℤ} (h : firstYear ≤ year) (h' : year ≤ lastYear) :
    (yearText year).length ≤ 7 := by
  unfold firstYear at h
  unfold lastYear at h'
  have hsize := Decimal.size_le (n := year.natAbs) (w := 5) (by omega)
  rcases yearText_cases year with ⟨-, e⟩ | ⟨-, e⟩ | ⟨-, e⟩ <;> rw [e] <;>
    simp only [List.length_cons, length_padded] <;> omega

lemma length_fractionText_le {nanos : ℕ} (h : nanos < 2 * nanosPerSecond) :
    (fractionText nanos).length ≤ 11 := by
  unfold nanosPerSecond at h
  have h3 := Decimal.size_le (n := nanos / 1000000) (w := 3) (by omega)
  have h6 := Decimal.size_le (n := nanos / 1000) (w := 6) (by omega)
  have h9 := Decimal.size_le (n := nanos) (w := 9) (by omega)
  unfold fractionText
  split
  · simp
  · split
    · simp only [List.length_cons, length_padded]
      omega
    · split <;> simp only [List.length_cons, length_padded] <;> omega

end Moment

/-- **No text of a time is long.** -/
lemma Timestamp.length_text_le {t : Timestamp} {m : Moment} (h : t.toMoment = .ok m) :
    m.text.length ≤ 34 := by
  unfold toMoment at h
  simp only at h
  split at h
  · rename_i hok
    cases h
    obtain ⟨hplace, hfirst, hlast⟩ := hok
    obtain ⟨hmonth, hday⟩ := Date.ofDays_le (t.seconds.toInt / 86400)
    have hyear := Moment.length_yearText_le hfirst hlast
    have hfraction := Moment.length_fractionText_le hplace.nanos_lt
    have htwo : ∀ {n}, n < 100 → (Decimal.padded 2 n).length ≤ 2 := by
      intro n hn
      have := Decimal.size_le (w := 1) hn
      rw [Decimal.length_padded]
      omega
    have hm := htwo (n := t.moment.date.month) (by simp only [moment]; omega)
    have hd := htwo (n := t.moment.date.day) (by simp only [moment]; omega)
    have hhour := htwo (n := t.moment.hour) (by simp only [moment]; omega)
    have hminute := htwo (n := t.moment.minute) (by simp only [moment]; omega)
    have hsecond := htwo (n := t.moment.second + t.moment.nanos / nanosPerSecond) (by
      have := hplace.nanos_lt
      unfold nanosPerSecond at *
      simp only [moment]
      omega)
    have hnanos : t.moment.nanos = t.nanos.toNat := rfl
    rw [← hnanos] at hfraction
    simp only [Moment.text, Moment.clockText, List.length_append, List.length_cons,
      List.length_nil]
    omega
  · cases h

/-! ### Export directories -/

/-- The export directory is said by a relative path, and with the names of files it makes paths that
a disk can hold. -/
structure Config.Exports (c : Config) : Prop where
  relative : c.exportDir.isAbsolute = false
  named : c.exportDir.chars ≠ []
  ended : c.exportDir.chars.getLast? ≠ some '/'
  clean : c.exportDir.hasNul = false
  short : c.exportDir.text.utf8ByteSize + 256 ≤ Disk.maxPath
  extensions : ∀ e ∈ [c.kind.extension, c.kind.signatureExtension],
    '\x00' ∉ e.toList ∧ e.utf8ByteSize ≤ 100

namespace Config.Exports

variable {c : Config} {t : Timestamp} {path : Path}

lemma tail (h : c.Exports) (r : Naming.Role) :
    '\x00' ∉ r.tail c.kind ∧ (String.ofList (r.tail c.kind)).utf8ByteSize ≤ 106 := by
  have hsuffix : '\x00' ∉ Naming.partSuffix.toList ∧ Naming.partSuffix.utf8ByteSize ≤ 5 := by decide
  have hdot : ∀ {e : String},
      (String.ofList ('.' :: e.toList)).utf8ByteSize = 1 + e.utf8ByteSize := by
    intro e
    rw [← List.singleton_append, utf8ByteSize_ofList_append, String.ofList_toList]
    rfl
  have hall := h.extensions
  simp only [List.mem_cons, List.not_mem_nil, or_false, forall_eq_or_imp, forall_eq] at hall
  obtain ⟨⟨he, hes⟩, hs, hss⟩ := hall
  cases r <;>
    simp only [Naming.Role.tail, utf8ByteSize_ofList_append, hdot, String.ofList_toList] <;>
    refine ⟨?_, by omega⟩ <;> simp [he, hs, hsuffix.1]

lemma nul_not_mem_text (m : Moment) : '\x00' ∉ m.text.map Moment.mask := by
  intro h
  have := Naming.mem_text h
  simp at this

lemma below (h : c.Exports) (hc : c.Plain)
    (ht : Naming.recordPath c.exportDir t c.kind = .ok path) (r : Naming.Role) :
    Disk.Below c.exportDir.names (r.path c.kind path) := by
  have hchars := Naming.path_chars hc ht r
  obtain ⟨cs, hcs⟩ := Naming.text_eq_append t.moment
  obtain ⟨hnul, hsize⟩ := h.tail r
  -- the name, and its length
  obtain ⟨name, hname⟩ : ∃ name, name = t.moment.text.map Moment.mask ++ r.tail c.kind := ⟨_, rfl⟩
  have hfront : Naming.front c.exportDir = c.exportDir.chars ++ ['/'] := by
    rw [Naming.front, if_neg h.named, if_neg h.ended]
  rw [hfront, ← hname, List.append_assoc, List.singleton_append] at hchars
  have hshort : (String.ofList name).utf8ByteSize ≤ 242 := by
    have hlen := Timestamp.length_text_le (Naming.toMoment_of_recordPath ht)
    have htext := utf8ByteSize_ofList_le (t.moment.text.map Moment.mask)
    rw [List.length_map] at htext
    rw [hname, utf8ByteSize_ofList_append]
    omega
  have hslash : '/' ∉ name := by
    rw [hname, List.mem_append, not_or]
    exact ⟨Naming.slash_not_mem_text _, Naming.slash_not_mem_tail hc r⟩
  have hne : ∀ ds : List Char, 'Z' ∉ ds → String.ofList name ≠ String.ofList ds := by
    intro ds hds heq
    rw [← String.ofList_injective heq, hname, hcs] at hds
    simp at hds
  refine ⟨⟨?_, ?_, ?_, ?_⟩, String.ofList name, ⟨⟨?_, ?_, ?_⟩, ?_⟩, ?_⟩
  · have hdir := h.clean
    simp only [Path.hasNul, hchars, hname, List.contains_eq_mem, List.mem_append, List.mem_cons,
      decide_eq_false_iff_not] at hdir ⊢
    simp [hdir, hnul, nul_not_mem_text]
  · rw [hchars]
    simp
  · have hrelative := h.relative
    simp only [Path.isAbsolute, decide_eq_false_iff_not] at hrelative ⊢
    rwa [hchars, List.head?_append_of_ne_nil _ h.named]
  · have hbytes : (r.path c.kind path).text.utf8ByteSize =
        c.exportDir.text.utf8ByteSize + (1 + (String.ofList name).utf8ByteSize) := by
      rw [← String.ofList_toList (s := (r.path c.kind path).text)]
      show (String.ofList (r.path c.kind path).chars).utf8ByteSize = _
      rw [hchars, utf8ByteSize_ofList_append, ← List.singleton_append, utf8ByteSize_ofList_append,
        Path.chars, String.ofList_toList]
      rfl
    have := h.short
    omega
  · exact hne [] (by simp)
  · exact hne ['.'] (by simp)
  · exact hne ['.', '.'] (by simp)
  · unfold Disk.maxName
    omega
  · rw [Path.names, hchars, Path.split_append_slash, Path.split_of_not_mem hslash, List.map_append]
    rfl

/-- **A disk can hold the files** of a configuration in its export directory. -/
theorem reaches (h : c.Exports) (hc : c.Plain) (hn : c.Names path) :
    (Disk.view c.exportDir.names).Reaches c.kind path := by
  obtain ⟨t, ht⟩ := hn
  exact ⟨h.below hc ht .record, h.below hc ht .part, h.below hc ht .signature,
    h.below hc ht .signaturePart⟩

end Config.Exports

/-! ### Runs that begin on a disk -/

namespace Disk

def blank (name : String) : Disk := Disk.empty.setNode [name] .directory

variable {name : String} {l : Location} {n : Node}

lemma node_blank (h : (blank name).node? l = some n) : n = .directory ∧ (l = [] ∨ l = [name]) := by
  rw [blank, node_setNode _ (by simp), Function.update_apply] at h
  split at h
  · cases h
    exact ⟨rfl, .inr ‹_›⟩
  · rw [node?] at h
    split at h
    · cases h
      exact ⟨rfl, .inl ‹_›⟩
    · cases h

lemma file_blank (name : String) (p : Path) : (blank name).file p = none := by
  rw [file]
  cases h : (blank name).node? p.names with
  | none => rfl
  | some n =>
    rw [(node_blank h).1]
    rfl

lemma holds_blank (h : PlainName name) : Holds [name] (blank name) := by
  constructor
  · intro l rest c heq
    cases l with
    | nil =>
      cases heq
      refine ⟨h, ?_⟩
      rw [blank, node_setNode _ (by simp)]
      exact Function.update_self ..
    | cons b l => simp at heq
  · intro c hc
    simpa using (node_blank hc).2
  · intro l i hl
    cases (node_blank hl).1
  · intro l m i hl _
    cases (node_blank hl).1

end Disk

namespace Outset

variable {σ ω : Type} [Storage σ ω] {config : Config} {p : Pipeline} {signer : Signer}

/-- A run on a disk with nothing but an empty directory in it. -/
def onDisk (name : String) (p : Pipeline) (signer : Signer) : Outset Disk DiskOutput where
  view := Disk.view [name]
  storage := Disk.blank name
  pipeline := p
  signer := signer
  meanwhile := []
  coming := []

lemma file_onDisk (name : String) (p : Pipeline) (signer : Signer) (path : Path) :
    (onDisk name p signer).view.file (onDisk name p signer).storage path = none :=
  Disk.file_blank name path

def withFaults (o : Outset σ ω) (faults : Faults) : Outset (Faulty σ) (FaultyOutput ω) where
  view := Faulty.view o.view
  storage := ⟨o.storage, faults⟩
  pipeline := o.pipeline
  signer := o.signer
  meanwhile := o.meanwhile
  coming := o.coming

lemma serves_standard (p : Pipeline) (signer : Signer) :
    (onDisk "record-streams" p signer).Serves .standard := by
  have hplain : Config.standard.Plain := ⟨rfl, by decide, by decide⟩
  have hexports : Config.standard.Exports := by
    constructor <;> decide
  exact ⟨hplain, Disk.holds_blank ⟨by decide, by decide⟩, hexports.reaches hplain⟩

lemma smooth_standard (p : Pipeline)
    (hs : ∀ call message, ∃ a, signer.sign call message = .ok a ∧ a.length ≤ Field.maxPayload) :
    (onDisk "record-streams" p signer).Smooth .standard :=
  ⟨Disk.neverFails _, hs, rfl, fun _ => ⟨file_onDisk .., file_onDisk ..⟩⟩

lemma Serves.withFaults {o : Outset σ ω} (h : o.Serves config) {faults : Faults}
    (hread : ∀ r, faults.read = some r → r.kind ≠ .interrupted) :
    (o.withFaults faults).Serves config :=
  ⟨h.plain, ⟨h.sound, hread _⟩, fun hn => (h.reaches hn).of_imp id⟩

/-! ### A small stream -/

/-- Two objects, each in a period of its own. -/
def few : List StreamObject :=
  [⟨.of [1] [2], ⟨1, 0⟩, ⟨0⟩, .unaligned⟩, ⟨.of [3] [], ⟨3, 0⟩, ⟨1⟩, .block 7⟩]

lemma named_of_isOk {os : List StreamObject} (hall : ∀ o ∈ os, o.timestamp.toIso.isOk = true)
    {o : StreamObject} (ho : o ∈ os) : ∃ text, o.timestamp.toIso = .ok text :=
  exists_ok_of_isOk (hall o ho)

lemma named_few {o : StreamObject} (ho : o ∈ few) : ∃ text, o.timestamp.toIso = .ok text :=
  named_of_isOk (by decide) ho

def sample : Outset Disk DiskOutput :=
  onDisk "record-streams"
    ⟨fun i => .resolved (RunningHash.after .zero ((few.take (i + 1)).map StreamObject.item)),
      fun _ => false, 2, 0⟩
    ⟨.ed25519, fun _ _ => .ok [0]⟩

lemma serves_sample : sample.Serves .standard := serves_standard _ _

lemma smooth_sample : sample.Smooth .standard :=
  smooth_standard _ fun _ _ => ⟨[0], rfl, by decide⟩

lemma holds_sample {o : StreamObject} (ho : o ∈ few) : ∃ k, sample.pipeline.Holds o.link k := by
  have hlink : ∀ o ∈ few, o.link.slot < 2 := by decide
  exact ⟨_, hlink o ho, rfl⟩

/-- The writer is cancelled from outside after each object, which is taken back. -/
def shaken : List Step :=
  .call (.setRunningHash .zero) ::
    (few.flatMap fun o => [.call (.add o), .outside (.cancel ⟨0⟩), .call .resetCancellation]) ++
    [.call .close]

lemma mem_shaken {o : StreamObject} (h : .call (.add o) ∈ shaken) : o ∈ few := by
  simpa [shaken, few, or_assoc] using h

lemma starts_shaken : Operation.startsFrom .zero (Step.calls shaken) = true := by decide

lemma exists_shaken {o : Outset σ ω} (h : o.Serves .standard)
    (hlinks : ∀ object ∈ few, ∃ k, o.pipeline.Holds object.link k) :
    ∃ t, o.reached .standard shaken = some t :=
  exists_exposed h (fun _ ho => hlinks _ (mem_shaken ho)) starts_shaken

end Outset

end SealedStream
