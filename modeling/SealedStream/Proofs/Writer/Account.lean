import SealedStream.Proofs.Naming
import SealedStream.Proofs.Writer.Closing
import SealedStream.Proofs.Writer.Course
import SealedStream.Proofs.Writer.Turn

/-!
The account of a run: which stretches of its course have become files, and what stands where.

It holds after every operation whatever has failed. Where nothing can fail it says more: every
stretch that could be written has been.
-/

namespace SealedStream

open Function (update)
open Naming (Role)

variable {σ ω : Type} [Storage σ ω]

def Config.Names (c : Config) (path : Path) : Prop :=
  ∃ t, Naming.recordPath c.exportDir t c.kind = .ok path

lemma Config.Plain.path_inj {c : Config} (hc : c.Plain) {p q : Path} {r r' : Role} (hp : c.Names p)
    (hq : c.Names q) (h : r.path c.kind p = r'.path c.kind q) : r = r' ∧ p = q := by
  obtain ⟨t, ht⟩ := hp
  obtain ⟨t', ht'⟩ := hq
  obtain ⟨hr, rfl⟩ := Naming.path_inj hc ht ht' h
  refine ⟨hr, ?_⟩
  rw [ht] at ht'
  cases ht'
  rfl

/-- What a run is about, and how things were at its start. -/
structure Setting (σ ω : Type) [Storage σ ω] where
  view : FileView σ ω
  config : Config
  files : Path → Option Bytes
  pipeline : Pipeline
  signer : Signer
  /-- Objects come with links that were given out before. -/
  known : Prop
  /-- Nobody interferes, and the caller does as he should. -/
  orderly : Prop
  /-- Neither storage nor signer fails. -/
  sure : Prop
  /-- Nor is an unfinished signature file in the way. -/
  reliable : Prop
  /-- No payload is too long to be written. -/
  fitting : Prop
  /-- No file is thrown away on request. -/
  lasting : Prop
  clock : PeriodClock
  clock_eq : config.clock = .ok clock
  plain : config.Plain
  reaches {path : Path} : config.Names path → view.Reaches config.kind path
  assured : reliable → sure
  ordered : sure → orderly
  storage : sure → view.NeverFails
  signs (call : ℕ) (message : Bytes) : sure →
    ∃ a, signer.sign call message = .ok a ∧ a.length ≤ Field.maxPayload
  clear {path : Path} : reliable → config.Names path → files path = none →
    files (Role.signaturePart.path config.kind path) = none

namespace Setting

variable (G : Setting σ ω)

/-- A path at which a file is written before it is moved into place. -/
def InProgress (p : Path) : Prop :=
  ∃ path, G.config.Names path ∧
    (p = Role.part.path G.config.kind path ∨ p = Role.signaturePart.path G.config.kind path)

def IsPart (p : Path) : Prop := ∃ path, G.config.Names path ∧ p = Role.part.path G.config.kind path

lemma IsPart.inProgress {p : Path} (h : G.IsPart p) : G.InProgress p :=
  h.imp fun _ hp => ⟨hp.1, Or.inl hp.2⟩

/-- A stretch that is to be written to a path that was free at the start. -/
def fresh (st : Stretch) : Bool :=
  st.kept && match Naming.recordPath G.config.exportDir st.time G.config.kind with
    | .ok path => (G.files path).isNone
    | .error _ => false

lemma fresh_iff {st : Stretch} : G.fresh st = true ↔ st.kept = true ∧
    ∃ path, Naming.recordPath G.config.exportDir st.time G.config.kind = .ok path ∧
      G.files path = none := by
  unfold fresh
  rw [Bool.and_eq_true]
  refine and_congr_right fun _ => ?_
  split <;> simp_all

end Setting

/-! ### Origins and links -/

def Origin.Leads (p : Pipeline) : Origin → Link → Prop
  | .unset, _ => True
  | .given h, l => p.Holds l h
  | .after o, l => l = o.link ∧ l.slot < p.links

def Origin.At (p : Pipeline) : Origin → Hash → Prop
  | .unset, _ => True
  | .given h, k => k = h
  | .after o, k => p.Holds o.link k

section

variable {p q : Pipeline} {origin : Origin} {l : Link} {h : Hash}

lemma Origin.Leads.mono (hl : origin.Leads p l) (hpq : p.Extends q) : origin.Leads q l := by
  cases origin with
  | unset => trivial
  | given h => exact Pipeline.Holds.mono hl hpq
  | after o => exact ⟨hl.1, Nat.lt_of_lt_of_le hl.2 hpq.links⟩

lemma Origin.At.mono (hl : origin.At p h) (hpq : p.Extends q) : origin.At q h := by
  cases origin with
  | unset => trivial
  | given k => exact hl
  | after o => exact Pipeline.Holds.mono hl hpq

lemma Origin.Leads.at (hl : origin.Leads p l) (hr : p.stateOf l = .resolved h) : origin.At p h := by
  cases origin with
  | unset => trivial
  | given k =>
    have heq := hr.symm.trans hl.2
    cases heq
    rfl
  | after o => exact ⟨hl.1 ▸ hl.2, hl.1 ▸ hr⟩

end

/-! ### Publications -/

/-- What the signer is asked about a record file, from a call on: nothing if the file could not be
read back, which does not happen where reading never fails; else to sign all its bytes, and only if
it has done so, its metadata hash. -/
inductive Inquiry (V : FileView σ ω) (signer : Signer) (call : ℕ) (entire metadata : Hash) :
    List Bytes → Prop where
  | unread (fault : ¬V.NeverFails) : Inquiry V signer call entire metadata []
  | refused {e : SignerError} (answer : signer.sign call entire.bytes = .error e) :
    Inquiry V signer call entire metadata [entire.bytes]
  | granted {a : Bytes} (answer : signer.sign call entire.bytes = .ok a) :
    Inquiry V signer call entire metadata [entire.bytes, metadata.bytes]

/-- A stretch that has become a record file, and its signatures if they could be made. -/
structure Publication where
  stretch : Stretch
  path : Path
  file : RecordFile
  content : Bytes
  /-- What the signer was asked to sign. -/
  messages : List Bytes
  signature : Option (Path × Bytes)

namespace Publication

def files (b : Publication) : List (Path × Bytes) := (b.path, b.content) :: b.signature.toList

def written (b : Publication) : WrittenFile :=
  { record := b.path
    signature := b.signature.map Prod.fst
    start := b.file.start
    finish := b.file.finish
    metadata := b.file.metadataHash
    block := b.file.block
    items := b.file.items.length }

/-- The record file, if it could not be read back: then the signer was not asked. -/
def unread (b : Publication) : List Path := if b.messages = [] then [b.path] else []

/-- The signer was asked from a call on, and a signature file is whole. -/
structure Signed (V : FileView σ ω) (kind : StreamKind) (signer : Signer) (call : ℕ)
    (b : Publication) : Prop where
  inquiry : Inquiry V signer call (Hash.digest b.content) b.file.metadataHash b.messages
  signature {q : Path} {image : Bytes} : b.signature = some (q, image) →
    q = Role.signature.path kind b.path ∧
    b.messages = [(Hash.digest b.content).bytes, b.file.metadataHash.bytes] ∧
    ∃ x y, signer.sign call (Hash.digest b.content).bytes = .ok x ∧
      signer.sign (call + 1) b.file.metadataHash.bytes = .ok y ∧
      (kind.signatures signer.scheme (Hash.digest b.content) b.file.metadataHash x y).encode =
        .ok image

/-- The file is that of its stretch. -/
structure Valid (G : Setting σ ω) (p : Pipeline) (call : ℕ) (b : Publication) : Prop where
  name : Naming.recordPath G.config.exportDir b.stretch.time G.config.kind = .ok b.path
  fresh : G.fresh b.stretch = true
  nonempty : b.stretch.objects ≠ []
  file : b.file = G.config.kind.file b.file.start b.stretch.items b.file.finish
    b.stretch.window.alignment.number
  image : b.file.encode = .ok b.content
  starts : G.known → b.stretch.before.At p b.file.start
  ends : G.known → ∀ o, b.stretch.objects.getLast? = some o → p.Holds o.link b.file.finish
  signed : b.Signed G.view G.config.kind G.signer call
  /-- No unfinished signature file was in the way. -/
  clear : b.signature.isSome → G.files (Role.signaturePart.path G.config.kind b.path) = none

variable {G : Setting σ ω} {p q : Pipeline} {call : ℕ} {b : Publication}

lemma Valid.mono (h : b.Valid G p call) (hpq : p.Extends q) : b.Valid G q call :=
  { h with
    starts := fun hk => (h.starts hk).mono hpq
    ends := fun hk o ho => (h.ends hk o ho).mono hpq }

end Publication

def Setting.asked (_G : Setting σ ω) (pubs : List Publication) : ℕ :=
  (pubs.flatMap Publication.messages).length

/-- Files have been published one after the other. -/
inductive Published (G : Setting σ ω) (p : Pipeline) : List Publication → Prop where
  | nil : Published G p []
  | snoc {pubs : List Publication} {b : Publication} (before : Published G p pubs)
    (valid : b.Valid G p (G.asked pubs)) : Published G p (pubs ++ [b])

lemma Published.mono {G : Setting σ ω} {p q : Pipeline} {pubs : List Publication}
    (h : Published G p pubs) (hpq : p.Extends q) : Published G q pubs := by
  induction h with
  | nil => exact .nil
  | snoc _ valid ih => exact .snoc ih (valid.mono hpq)

lemma Published.valid {G : Setting σ ω} {p : Pipeline} {pubs : List Publication}
    (h : Published G p pubs) {b : Publication} (hb : b ∈ pubs) : ∃ call, b.Valid G p call := by
  induction h with
  | nil => cases hb
  | snoc _ valid ih =>
    rw [List.mem_append, List.mem_singleton] at hb
    rcases hb with hb | rfl
    · exact ih hb
    · exact ⟨_, valid⟩

/-! ### The files of publications -/

def putAll (files : List (Path × Bytes)) (m : Path → Option Bytes) : Path → Option Bytes :=
  files.foldl (fun m x => update m x.1 (some x.2)) m

section

variable {files : List (Path × Bytes)} {m : Path → Option Bytes} {p : Path} {bs : Bytes}

lemma putAll_append (xs ys : List (Path × Bytes)) (m : Path → Option Bytes) :
    putAll (xs ++ ys) m = putAll ys (putAll xs m) :=
  List.foldl_append

lemma putAll_of_not_mem (h : p ∉ files.map Prod.fst) : putAll files m p = m p := by
  induction files generalizing m with
  | nil => rfl
  | cons x xs ih =>
    rw [List.map_cons, List.mem_cons, not_or] at h
    exact (ih h.2).trans (Function.update_of_ne h.1 _ _)

lemma putAll_of_mem (hn : (files.map Prod.fst).Nodup) (h : (p, bs) ∈ files) :
    putAll files m p = some bs := by
  induction files generalizing m with
  | nil => cases h
  | cons x xs ih =>
    rw [List.map_cons, List.nodup_cons] at hn
    rcases List.mem_cons.mp h with rfl | h
    · exact (putAll_of_not_mem hn.1).trans (Function.update_self _ _ _)
    · exact ih hn.2 h

lemma putAll_congr {n : Path → Option Bytes} (h : m p = n p) :
    putAll files m p = putAll files n p := by
  induction files generalizing m n with
  | nil => exact h
  | cons x xs ih =>
    refine ih (m := update m x.1 (some x.2)) (n := update n x.1 (some x.2)) ?_
    by_cases hp : p = x.1
    · rw [hp, Function.update_self, Function.update_self]
    · rw [Function.update_of_ne hp, Function.update_of_ne hp, h]

lemma eq_none_of_putAll (h : putAll files m p = none) : m p = none := by
  induction files generalizing m with
  | nil => exact h
  | cons x xs ih =>
    have hx : update m x.1 (some x.2) p = none := ih h
    by_cases hp : p = x.1
    · rw [hp, Function.update_self] at hx
      cases hx
    · rwa [Function.update_of_ne hp] at hx

end

def Setting.shelf (G : Setting σ ω) (pubs : List Publication) : Path → Option Bytes :=
  putAll (pubs.flatMap Publication.files) G.files

section

variable {G : Setting σ ω} {p : Pipeline} {pubs : List Publication} {b : Publication} {call : ℕ}

lemma Setting.shelf_snoc (G : Setting σ ω) (pubs : List Publication) (b : Publication) :
    G.shelf (pubs ++ [b]) = putAll b.files (G.shelf pubs) := by
  rw [shelf, List.flatMap_append, putAll_append]
  simp [shelf]

lemma Publication.Valid.names (h : b.Valid G p call) : G.config.Names b.path := ⟨_, h.name⟩

lemma Publication.Valid.mem_files (h : b.Valid G p call) {path : Path}
    (hp : path ∈ b.files.map Prod.fst) :
    ∃ r : Role, path = r.path G.config.kind b.path ∧ (r = .record ∨ r = .signature) := by
  unfold Publication.files at hp
  rw [List.map_cons, List.mem_cons] at hp
  rcases hp with rfl | hp
  · exact ⟨.record, rfl, Or.inl rfl⟩
  · cases hs : b.signature with
    | none => simp [hs] at hp
    | some x =>
      obtain ⟨q, image⟩ := x
      rw [hs] at hp
      simp only [Option.toList_some, List.map_cons, List.map_nil, List.mem_singleton] at hp
      exact ⟨.signature, hp.trans (h.signed.signature hs).1, Or.inr rfl⟩

lemma Publication.Valid.nodup_files (h : b.Valid G p call) : (b.files.map Prod.fst).Nodup := by
  unfold Publication.files
  cases hs : b.signature with
  | none => simp
  | some x =>
    obtain ⟨q, image⟩ := x
    have hq := (h.signed.signature hs).1
    have hne : b.path ≠ q := by
      rw [hq]
      intro heq
      have := (G.plain.path_inj (r := .record) h.names h.names heq).1
      cases this
    simpa using hne

lemma Published.nodup_files (h : Published G p pubs)
    (hn : (pubs.map Publication.path).Nodup) :
    ((pubs.flatMap Publication.files).map Prod.fst).Nodup := by
  induction h with
  | nil => simp
  | @snoc pubs b before valid ih =>
    rw [List.map_append, List.nodup_append] at hn
    obtain ⟨hn, -, hdisj⟩ := hn
    rw [List.flatMap_append, List.map_append, List.nodup_append]
    refine ⟨ih hn, by simpa using valid.nodup_files, ?_⟩
    rintro x hx y hy rfl
    rw [List.mem_map] at hx
    obtain ⟨file, hfile, rfl⟩ := hx
    obtain ⟨b', hb', hin⟩ := List.mem_flatMap.mp hfile
    obtain ⟨call, hvalid⟩ := before.valid hb'
    obtain ⟨r, hr, -⟩ := hvalid.mem_files (List.mem_map_of_mem (f := Prod.fst) hin)
    obtain ⟨r', hr', -⟩ := valid.mem_files (by simpa using hy)
    have hpath := (G.plain.path_inj hvalid.names valid.names (hr.symm.trans hr')).2
    exact hdisj _ (List.mem_map_of_mem hb') _ (List.mem_singleton.mpr rfl) hpath

/-- **Each publication's record file stands on the shelf.** -/
lemma Published.shelf_path (h : Published G p pubs) (hn : (pubs.map Publication.path).Nodup)
    (hb : b ∈ pubs) : G.shelf pubs b.path = some b.content :=
  putAll_of_mem (h.nodup_files hn) (List.mem_flatMap.mpr ⟨b, hb, List.mem_cons_self⟩)

lemma Published.shelf_of_time (h : Published G p pubs) {path : Path} {t : Timestamp}
    (ht : Naming.recordPath G.config.exportDir t G.config.kind = .ok path)
    (hnot : t ∉ pubs.map fun b => b.stretch.time) : G.shelf pubs path = G.files path := by
  refine putAll_of_not_mem fun hmem => ?_
  rw [List.mem_map] at hmem
  obtain ⟨file, hfile, rfl⟩ := hmem
  obtain ⟨b, hb, hin⟩ := List.mem_flatMap.mp hfile
  obtain ⟨call, hvalid⟩ := h.valid hb
  obtain ⟨r, hr, -⟩ := hvalid.mem_files (List.mem_map_of_mem (f := Prod.fst) hin)
  have heq := (Naming.path_inj (r := .record) G.plain ht hvalid.name hr).2
  exact hnot (heq ▸ List.mem_map_of_mem hb)

end

/-! ### The account -/

/-- The open file is that of a stretch. -/
structure Writes (G : Setting σ ω) (st : Stretch) (file : OpenFile ω) (s : Surroundings σ) :
    Prop where
  kept : st.kept = true
  window : file.window = st.window
  name : Naming.recordPath G.config.exportDir st.time G.config.kind = .ok file.path
  free : G.files file.path = none
  holds : file.Holds G.view G.config.kind st.items s.storage
  starts : G.known → st.before.At s.pipeline file.start
  link : G.known → ∀ o, st.objects.getLast? = some o →
    file.lastLink = o.link ∧ o.link.slot < s.pipeline.links

/-- The writer is where its course says. -/
structure Follows (G : Setting σ ω) (c : Course) (w : Writer ω) : Prop where
  config : w.config = G.config
  clock : w.clock = G.clock
  completeWindow : w.completeWindow = c.completeWindow
  lastPeriod : w.lastPeriod = c.lastPeriod
  stopped : w.stopped = c.stopped
  window : w.phase.window? = c.current.map Stretch.window

/-- Stretches of the past have been published, and their files are what has changed but for files
in progress; signatures are in progress only where the record file stands. -/
structure Records (G : Setting σ ω) (pubs : List Publication) (past : List Stretch)
    (last : Option WrittenFile) (s : Surroundings σ) : Prop where
  sound : G.view.Sound s.storage
  grown : G.pipeline.Extends s.pipeline
  signer : s.signer = G.signer
  asked : s.asked = pubs.flatMap Publication.messages
  published : Published G s.pipeline pubs
  nodup : (pubs.map Publication.path).Nodup
  placed : s.placed = pubs.map Publication.path
  unread : s.unread = pubs.flatMap Publication.unread
  last : last = pubs.getLast?.map Publication.written
  sublist : (pubs.map Publication.stretch).Sublist (past.filter G.fresh)
  files {p : Path} : ¬G.InProgress p → G.view.file s.storage p = G.shelf pubs p
  beside {path : Path} : G.config.Names path → G.view.file s.storage path = none →
    G.view.file s.storage (Role.signaturePart.path G.config.kind path) =
      G.files (Role.signaturePart.path G.config.kind path)

/-- Nothing has been missed, and nothing is in the way of what is to come. -/
structure Steady (G : Setting σ ω) (pubs : List Publication) (c : Course) (w : Writer ω)
    (s : Surroundings σ) : Prop where
  token : s.pipeline.isCancelled w.token = false
  calm : s.meanwhile = []
  ready : c.origin ≠ .unset → ∃ h, s.pipeline.Holds w.runningHash h
  lastReady {file : OpenFile ω} : w.phase = .writing file → ∃ h, s.pipeline.Holds file.lastLink h
  writing {st : Stretch} : c.current = some st → G.fresh st = true → ∃ file, w.phase = .writing file
  all : pubs.map Publication.stretch = c.past.filter G.fresh
  signed {b : Publication} : b ∈ pubs → b.signature.isSome
  /-- Of files in progress there is none but the open one, unless it was left over. -/
  tidy {p : Path} : G.reliable → G.InProgress p →
    (∀ file, w.phase = .writing file → p ≠ file.part) →
    G.view.file s.storage p = none ∨ G.view.file s.storage p = G.files p

def Stretch.Fits (st : Stretch) : Prop := ∀ o ∈ st.objects, o.item.Fits

instance (st : Stretch) : Decidable st.Fits := inferInstanceAs (Decidable (∀ o ∈ st.objects, _))

/-- What comes in the way of the stretches that are to be written although nothing fails: the next
of them cannot be written, or an unfinished signature file was left over beside the last one. -/
inductive Hindrance (G : Setting σ ω) (pubs : List Publication) (ss : List Stretch) : Prop where
  | unfit {st : Stretch} (signed : ∀ b ∈ pubs, b.signature.isSome) (unfit : ¬st.Fits)
    (next : pubs.map Publication.stretch ++ [st] <+: ss)
  | obstructed {before : List Publication} {b : Publication} (last : pubs = before ++ [b])
    (signed : ∀ x ∈ before, x.signature.isSome)
    (there : G.files (Role.signaturePart.path G.config.kind b.path) ≠ none)

/-- A window has been given up, and the token been cancelled for it: nothing more is published. -/
structure Halted (G : Setting σ ω) (pubs : List Publication) (c : Course) (w : Writer ω)
    (s : Surroundings σ) : Prop where
  cancelled : s.pipeline.isCancelled w.token = true
  shut (file : OpenFile ω) : w.phase ≠ .writing file
  first : pubs.map Publication.stretch <+: c.past.filter G.fresh
  unfit : G.reliable → ¬G.fitting
  due : G.sure → G.lasting → Hindrance G pubs (c.stretches.filter G.fresh)

/-- The account of a writer's course. -/
structure Account (G : Setting σ ω) (pubs : List Publication) (c : Course) (w : Writer ω)
    (s : Surroundings σ) : Prop where
  follows : Follows G c w
  records : Records G pubs c.past w.lastWritten s
  leads : G.known → c.origin.Leads s.pipeline w.runningHash
  opened {file : OpenFile ω} : w.phase = .writing file →
    ∃ st, c.current = some st ∧ Writes G st file s
  state : G.orderly → Steady G pubs c w s ∨ Halted G pubs c w s

/-- A payload could not be written, and the token has been cancelled for it. -/
structure Lapsed (G : Setting σ ω) (w : Writer ω) (s : Surroundings σ) : Prop where
  cancelled : s.pipeline.isCancelled w.token = true
  unfit : ¬G.fitting

lemma Account.steady {G : Setting σ ω} {pubs : List Publication} {c : Course} {w : Writer ω}
    {s : Surroundings σ} (h : Account G pubs c w s) (hR : G.reliable) :
    Steady G pubs c w s ∨ Lapsed G w s :=
  (h.state (G.ordered (G.assured hR))).imp id fun hh => ⟨hh.cancelled, hh.unfit hR⟩

end SealedStream
