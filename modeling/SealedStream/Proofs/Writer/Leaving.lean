import SealedStream.Proofs.Signature.RoundTrip
import SealedStream.Proofs.Writer.Account

/-!
Leaving a window keeps the account, whether its file is finished, given up or was never begun.
-/

namespace SealedStream

open Function (update)
open Naming (Role)

variable {σ ω : Type} [Storage σ ω] {V : FileView σ ω} {G : Setting σ ω}
  {pubs : List Publication} {past past' : List Stretch} {last : Option WrittenFile} {c : Course}
  {w : Writer ω} {s s' : Surroundings σ} {st : Stretch} {file : OpenFile ω}

/-! ### Frames -/

lemma Hindrance.mono {ss ss' : List Stretch} (h : Hindrance G pubs ss) (hss : ss <+: ss') :
    Hindrance G pubs ss' := by
  cases h with
  | unfit signed unfit next => exact .unfit signed unfit (next.trans hss)
  | obstructed last signed there => exact .obstructed last signed there

lemma Halted.after {d : Course} {w' : Writer ω} (h : Halted G pubs c w s)
    (hc : s'.pipeline.isCancelled w'.token = true) (hw : ∀ file, w'.phase ≠ .writing file)
    (hpast : c.past <+: d.past) (hdue : G.lasting → c.stretches <+: d.stretches) :
    Halted G pubs d w' s' where
  cancelled := hc
  shut := hw
  first := h.first.trans (hpast.filter _)
  unfit := h.unfit
  due hR hl := (h.due hR hl).mono ((hdue hl).filter _)

lemma Halted.grows (h : Halted G pubs c w s) (hg : s.pipeline.Grows s'.pipeline) :
    Halted G pubs c w s' :=
  h.after (hg.cancelled h.cancelled) h.shut List.prefix_rfl fun _ => List.prefix_rfl

lemma Setting.IsPart.ne {p path : Path} {r : Role} (h : G.IsPart p) (hn : G.config.Names path)
    (hr : r ≠ .part) : p ≠ r.path G.config.kind path := by
  obtain ⟨path', hn', rfl⟩ := h
  exact fun heq => hr (G.plain.path_inj hn' hn heq).1.symm

lemma Records.quiet {touched : Path → Prop} (h : Records G pubs past last s)
    (hq : Quiet G.view touched s s') (ht : ∀ p, touched p → G.IsPart p) :
    Records G pubs past last s' where
  sound := hq.sound
  grown := h.grown.trans hq.pipeline.extends
  signer := hq.signer.trans h.signer
  asked := hq.asked.trans h.asked
  published := h.published.mono hq.pipeline.extends
  nodup := h.nodup
  placed := hq.placed.trans h.placed
  unread := hq.unread.trans h.unread
  last := h.last
  sublist := h.sublist
  files hp := (hq.file fun h' => hp (ht _ h').inProgress).trans (h.files hp)
  beside {path} hn hnone := by
    have hsame {r : Role} (hr : r ≠ .part) : G.view.file s'.storage (r.path G.config.kind path) =
        G.view.file s.storage (r.path G.config.kind path) :=
      hq.file fun h' => (ht _ h').ne hn hr rfl
    rw [hsame (show Role.signaturePart ≠ .part by decide)]
    exact h.beside hn ((hsame (r := .record) (by decide)).symm.trans hnone)

lemma Records.append (h : Records G pubs past last s) (more : List Stretch) :
    Records G pubs (past ++ more) last s :=
  { h with
    sublist := by
      rw [List.filter_append]
      exact h.sublist.trans (List.sublist_append_left _ _) }

lemma Account.touch (h : Account G pubs c w s) (ht : Touches G.view (fun _ => False) s s')
    (hs : s'.storage = s.storage) : Account G pubs c w s' where
  follows := h.follows
  records := h.records.quiet ht.quiet fun _ => False.elim
  leads hk := by rw [ht.pipeline]; exact h.leads hk
  opened hw := by
    obtain ⟨st, hst, hwr⟩ := h.opened hw
    exact ⟨st, hst, { hwr with
      holds := by rw [hs]; exact hwr.holds
      starts := by rw [ht.pipeline]; exact hwr.starts
      link := by rw [ht.pipeline]; exact hwr.link }⟩
  state hO := (h.state hO).imp
    (fun hst =>
      { hst with
        token := by rw [ht.pipeline]; exact hst.token
        calm := ht.meanwhile.trans hst.calm
        ready := by rw [ht.pipeline]; exact hst.ready
        lastReady := by rw [ht.pipeline]; exact hst.lastReady
        tidy := fun hR hp hw => by rw [ht.file id]; exact hst.tidy hR hp hw })
    fun hh => hh.grows ht.quiet.pipeline

lemma Follows.idle_iff (h : Follows G c w) : w.phase = .idle ↔ c.current = none := by
  have hw := h.window
  cases hc : c.current with
  | none =>
    rw [hc] at hw
    cases hp : w.phase with
    | idle => simp
    | writing file => simp [hp, Phase.window?] at hw
    | skipping window reason => simp [hp, Phase.window?] at hw
  | some st =>
    rw [hc] at hw
    cases hp : w.phase with
    | idle => simp [hp, Phase.window?] at hw
    | writing file => simp
    | skipping window reason => simp

lemma Follows.leave (h : Follows G c w) (last : Option WrittenFile) :
    Follows G c.leave { w with phase := .idle, lastWritten := last } :=
  { h with window := rfl }

/-- **Leaving a window that is not being written**, or none at all. -/
theorem Account.leave (h : Account G pubs c w s) (hw : ∀ file, w.phase ≠ .writing file) :
    Account G pubs c.leave { w with phase := .idle } s where
  follows := h.follows.leave w.lastWritten
  records := h.records.append _
  leads := h.leads
  opened hw := by cases hw
  state hO := by
    refine (h.state hO).imp (fun hst => ?_) fun hh =>
      hh.after hh.cancelled nofun (List.prefix_append _ _) fun _ => by
        simp only [Course.stretches_leave, List.prefix_rfl]
    refine { hst with
      lastReady := by rintro _ ⟨⟩
      writing := by rintro _ ⟨⟩
      all := ?_
      tidy := fun hR hp _ => hst.tidy hR hp fun file hf => (hw file hf).elim }
    rw [hst.all]
    cases hc : c.current with
    | none => simp [Course.leave, hc]
    | some st =>
      have hfresh : G.fresh st = false := by
        by_contra hne
        obtain ⟨file, hf⟩ := hst.writing hc (by simpa using hne)
        exact hw file hf
      simp [Course.leave, hc, hfresh]

lemma Account.steady_of_writing (h : Account G pubs c w s) (hO : G.orderly)
    (hw : w.phase = .writing file) : Steady G pubs c w s :=
  (h.state hO).resolve_right fun hh => hh.shut file hw

lemma Account.giveUp (h : Account G pubs c w s) (hw : w.phase = .writing file)
    (hq : Quiet G.view (· = file.part) s s') (hpart : G.IsPart file.part)
    (hO : G.orderly → s'.pipeline.isCancelled w.token = true ∧ ¬G.sure) :
    Account G pubs c.leave { w with phase := .idle } s' where
  follows := h.follows.leave w.lastWritten
  records := (h.records.append _).quiet hq fun p hp => hp ▸ hpart
  leads hk := (h.leads hk).mono hq.pipeline.extends
  opened hw := by cases hw
  state hO' := by
    obtain ⟨hcancelled, hfault⟩ := hO hO'
    refine .inr ⟨hcancelled, nofun, ?_, fun hR => (hfault (G.assured hR)).elim,
      fun hR => (hfault hR).elim⟩
    rw [(h.steady_of_writing hO' hw).all]
    exact (List.prefix_append _ _).filter _

lemma Writes.names (h : Writes G st file s) : G.config.Names file.path := ⟨_, h.name⟩

lemma Writes.isPart (h : Writes G st file s) : G.IsPart file.part := ⟨_, h.names, h.holds.part⟩

lemma Writes.reach (h : Writes G st file s) : G.view.Reach file.part := by
  rw [h.holds.part]
  exact (G.reaches h.names).part

/-! ### Signatures -/

/-- What signing a record file at `path` comes to. -/
structure Sealing (V : FileView σ ω) (kind : StreamKind) (path : Path) (entire metadata : Hash)
    (messages : List Bytes) (signature : Option (Path × Bytes)) (s s' : Surroundings σ) :
    Prop where
  sound : V.Sound s'.storage
  pipeline : s.pipeline.Grows s'.pipeline
  signer : s'.signer = s.signer
  asked : s'.asked = s.asked ++ messages
  placed : s'.placed = s.placed
  unread : s'.unread = s.unread ++ if messages = [] then [path] else []
  inquiry : Inquiry V s.signer s.asked.length entire metadata messages
  whole {q : Path} {image : Bytes} : signature = some (q, image) →
    q = Role.signature.path kind path ∧ messages = [entire.bytes, metadata.bytes] ∧
    ∃ x y, s.signer.sign s.asked.length entire.bytes = .ok x ∧
      s.signer.sign (s.asked.length + 1) metadata.bytes = .ok y ∧
      (kind.signatures s.signer.scheme entire metadata x y).encode = .ok image
  free : signature.isSome → V.file s.storage (Role.signaturePart.path kind path) = none
  file {p : Path} : p ≠ Role.signaturePart.path kind path →
    V.file s'.storage p = putAll signature.toList (V.file s.storage) p

section

variable {kind : StreamKind} {path p : Path} {entire metadata : Hash} {messages : List Bytes}
  {signature : Option (Path × Bytes)} {bs : Bytes}

lemma Sealing.mem_signature (h : Sealing V kind path entire metadata messages signature s s')
    (hp : p ∈ signature.toList.map Prod.fst) : p = Role.signature.path kind path := by
  cases hs : signature with
  | none => simp [hs] at hp
  | some x =>
    obtain ⟨q, image⟩ := x
    rw [hs] at hp
    obtain rfl : p = q := by simpa using hp
    exact (h.whole hs).1

end

lemma Signing.sealing {path : Path} {entire metadata : Hash} {r : Option Path}
    (h : Signing V w path entire metadata s s' r) :
    ∃ messages signature, r = signature.map Prod.fst ∧
      Sealing V w.config.kind path entire metadata messages signature s s' := by
  -- once the file has been read back, the signer is asked
  have hnone : ∀ {m ms} (touched : Path → Prop),
      Inquiry V s.signer s.asked.length entire metadata (m :: ms) →
      Quiet V touched (s.having (m :: ms)) s' →
      (∀ p, touched p → p = Role.signaturePart.path w.config.kind path) →
      Sealing V w.config.kind path entire metadata (m :: ms) none s s' := by
    intro m ms touched hinquiry hq ht
    refine ⟨hq.sound, hq.pipeline, hq.signer, hq.asked, hq.placed, ?_, hinquiry, nofun, nofun,
      fun hp => hq.file fun h => hp (ht _ h)⟩
    rw [hq.unread, if_neg (List.cons_ne_nil m ms), List.append_nil]
    rfl
  cases h with
  | @unread f quiet cancelled fault =>
    refine ⟨[], none, rfl, quiet.sound, quiet.pipeline, quiet.signer, ?_, ?_, ?_, .unread fault,
      nofun, nofun, fun hp => quiet.file id⟩
    · rw [quiet.asked, List.append_nil]
      rfl
    · rw [quiet.placed, Surroundings.placed_told]
      exact List.append_nil _
    · rw [quiet.unread, Surroundings.unread_told]
      rfl
  | unsigned answer quiet cancelled =>
    exact ⟨_, none, rfl, hnone _ (.refused answer) quiet fun _ => False.elim⟩
  | halfSigned answer refusal quiet cancelled =>
    exact ⟨_, none, rfl, hnone _ (.granted answer) quiet fun _ => False.elim⟩
  | unsaved answer answer' name quiet cancelled gone fault =>
    refine ⟨_, none, rfl, hnone _ (.granted answer) quiet ?_⟩
    rintro p rfl
    rw [name]
    rfl
  | @saved x y image target answer answer' name form free touches file =>
    have hpart : Role.signaturePart.path w.config.kind path = Naming.partPath target := by
      rw [name]
      rfl
    refine ⟨_, some (target, image), rfl, touches.sound, touches.quiet.pipeline, touches.signer,
      touches.asked, touches.placed, ?_, .granted answer, ?_, fun _ => hpart ▸ free,
      fun {p} hp => ?_⟩
    · rw [touches.unread, if_neg (List.cons_ne_nil _ _), List.append_nil]
      rfl
    · rintro _ _ ⟨⟩
      exact ⟨name, rfl, x, y, answer, answer', form⟩
    · have hp' : p ≠ Naming.partPath target := hpart ▸ hp
      rw [file]
      by_cases hpt : p = target
      · subst hpt
        simp [putAll]
      · rw [Function.update_of_ne hpt, Function.update_of_ne hp']
        simp [putAll, Function.update_of_ne hpt]

lemma StreamKind.signatures_isOk (k : StreamKind) (scheme : Scheme) (entire metadata : Hash)
    {x y : Bytes} (hx : x.length ≤ Field.maxPayload) (hy : y.length ≤ Field.maxPayload) :
    (k.signatures scheme entire metadata x y).encode.isOk = true :=
  (SignatureFile.encode_isOk_iff_fits _).mpr ⟨hx, hy⟩

lemma Signing.cancelled {path : Path} {entire metadata : Hash}
    (h : Signing V w path entire metadata s s' none) :
    s'.pipeline.isCancelled w.token = true := by
  cases h <;> assumption

lemma Signing.settled {path : Path} {entire metadata : Hash} {target : Path}
    (h : Signing V w path entire metadata s s' (some target)) :
    s'.pipeline = s.pipeline ∧ s'.meanwhile = s.meanwhile ∧
      V.file s'.storage (Role.signaturePart.path w.config.kind path) = none := by
  cases h with
  | @saved x y image _ answer answer' name form free touches file =>
    refine ⟨touches.pipeline, touches.meanwhile, ?_⟩
    have hp : Role.signaturePart.path w.config.kind path = Naming.partPath target := by
      rw [name]
      rfl
    rw [hp, file, Function.update_of_ne (partPath_ne target), Function.update_self]

lemma Signing.isSome {path : Path} {entire metadata : Hash} {r : Option Path}
    (h : Signing V w path entire metadata s s' r) (hV : V.NeverFails)
    (hsigner : ∀ call m, ∃ a, s.signer.sign call m = .ok a ∧ a.length ≤ Field.maxPayload)
    (hpart : V.file s.storage (Role.signaturePart.path w.config.kind path) = none) :
    r.isSome := by
  have hanswer : ∀ {call m e}, s.signer.sign call m ≠ .error e := by
    intro call m e he
    obtain ⟨a, ha, -⟩ := hsigner call m
    rw [ha] at he
    cases he
  have hshort : ∀ {call m a}, s.signer.sign call m = .ok a → a.length ≤ Field.maxPayload := by
    intro call m a ha
    obtain ⟨b, hb, hlen⟩ := hsigner call m
    rw [ha] at hb
    cases hb
    exact hlen
  cases h with
  | unread quiet cancelled fault => exact (fault hV).elim
  | unsigned answer quiet cancelled => exact (hanswer answer).elim
  | halfSigned answer refusal quiet cancelled => exact (hanswer refusal).elim
  | unsaved answer answer' name quiet cancelled gone fault =>
    refine (fault ⟨hV, ?_, ?_⟩).elim
    · exact StreamKind.signatures_isOk _ _ _ _ (hshort answer) (hshort answer')
    · rw [name]
      exact hpart
  | saved answer answer' name form free touches file => rfl

/-! ### The file of a window -/

lemma Setting.not_inProgress {path : Path} {r : Role} (hn : G.config.Names path)
    (hr : r = .record ∨ r = .signature) : ¬G.InProgress (r.path G.config.kind path) := by
  rintro ⟨path', hn', h⟩
  rcases h with h | h
  · have := (G.plain.path_inj hn hn' h).1
    rcases hr with rfl | rfl <;> cases this
  · have := (G.plain.path_inj hn hn' h).1
    rcases hr with rfl | rfl <;> cases this

section Publishing

variable {s₁ : Surroundings σ} {finish : Hash} {content : Bytes} {messages : List Bytes}
  {signature : Option (Path × Bytes)}

def Writes.publication (G : Setting σ ω) (st : Stretch) (file : OpenFile ω) (finish : Hash)
    (content : Bytes) (messages : List Bytes) (signature : Option (Path × Bytes)) : Publication :=
  ⟨st, file.path, file.whole G.config.kind st.items finish, content, messages, signature⟩

lemma Writes.role_ne (hwr : Writes G st file s) {r r' : Role} (hne : r ≠ r') :
    r.path G.config.kind file.path ≠ r'.path G.config.kind file.path :=
  fun heq => hne (G.plain.path_inj hwr.names hwr.names heq).1

lemma Writes.fresh (hwr : Writes G st file s) : G.fresh st = true :=
  (G.fresh_iff).mpr ⟨hwr.kept, _, hwr.name, hwr.free⟩

lemma Writes.valid (hwr : Writes G st file s) (hne : st.objects ≠ []) {call : ℕ}
    (resolved : s₁.pipeline.stateOf file.lastLink = .resolved finish)
    (form : (file.whole G.config.kind st.items finish).encode = .ok content)
    (hs₁ : s.pipeline.Grows s₁.pipeline) (hs' : s₁.pipeline.Grows s'.pipeline)
    (signed : (Writes.publication G st file finish content messages signature).Signed
      G.view G.config.kind G.signer call)
    (clear : signature.isSome → G.files (Role.signaturePart.path G.config.kind file.path) = none) :
    (Writes.publication G st file finish content messages signature).Valid G s'.pipeline call where
  name := hwr.name
  fresh := hwr.fresh
  nonempty := hne
  file := by simp [publication, OpenFile.whole, StreamKind.file, hwr.window]
  image := form
  starts hk := (hwr.starts hk).mono (hs₁.trans hs').extends
  ends hk o ho := by
    obtain ⟨hlink, hslot⟩ := hwr.link hk o ho
    refine Pipeline.Holds.mono (p := s₁.pipeline) ⟨?_, ?_⟩ hs'.extends
    · rw [hs₁.links]
      exact hslot
    · rw [← hlink]
      exact resolved
  signed := signed
  clear := clear

lemma Records.beside_placing (h : Records G pubs past last s) (hwr : Writes G st file s)
    (placing : Placing G.view file content s s₁) :
    G.view.file s₁.storage (Role.signaturePart.path G.config.kind file.path) =
      G.files (Role.signaturePart.path G.config.kind file.path) := by
  have hpart : Role.signaturePart.path G.config.kind file.path ≠ file.part :=
    (hwr.isPart.ne hwr.names (by decide)).symm
  rw [placing.other hpart (hwr.role_ne (show Role.signaturePart ≠ .record by decide))]
  exact h.beside hwr.names placing.free

lemma Records.publish_files (h : Records G pubs past last s) (hwr : Writes G st file s)
    (placing : Placing G.view file content s s₁)
    (sealing : Sealing G.view G.config.kind file.path (Hash.digest content)
      (file.whole G.config.kind st.items finish).metadataHash messages signature s₁ s')
    {p : Path} (hp : ¬G.InProgress p) :
    G.view.file s'.storage p =
      G.shelf (pubs ++ [Writes.publication G st file finish content messages signature]) p := by
  have hpart : p ≠ Role.signaturePart.path G.config.kind file.path := by
    rintro rfl
    exact hp ⟨_, hwr.names, Or.inr rfl⟩
  have hpart' : p ≠ file.part := by
    rintro rfl
    exact hp hwr.isPart.inProgress
  rw [sealing.file hpart, G.shelf_snoc]
  refine putAll_congr (n := update (G.shelf pubs) file.path (some content)) ?_
  by_cases hpath : p = file.path
  · subst hpath
    rw [placing.there, Function.update_self]
  · rw [placing.other hpart' hpath, h.files hp, Function.update_of_ne hpath]

lemma Records.not_mem_of_free (h : Records G pubs past last s) {path : Path}
    (hn : G.config.Names path) (free : G.view.file s.storage path = none) :
    path ∉ pubs.map Publication.path := by
  intro hmem
  obtain ⟨x, hx, rfl⟩ := List.mem_map.mp hmem
  have hfile := h.files (G.not_inProgress (r := .record) hn (Or.inl rfl))
  exact nomatch free.symm.trans (hfile.trans (h.published.shelf_path h.nodup hx))

lemma Records.publish_beside (h : Records G pubs past last s) (hwr : Writes G st file s)
    (placing : Placing G.view file content s s₁)
    (sealing : Sealing G.view G.config.kind file.path (Hash.digest content)
      (file.whole G.config.kind st.items finish).metadataHash messages signature s₁ s')
    {path : Path} (hn : G.config.Names path) (hnone : G.view.file s'.storage path = none) :
    G.view.file s'.storage (Role.signaturePart.path G.config.kind path) =
      G.files (Role.signaturePart.path G.config.kind path) := by
  have hne : path ≠ file.path := by
    rintro rfl
    have hstands := sealing.file (hwr.role_ne (show Role.record ≠ .signaturePart by decide))
    exact nomatch placing.there.symm.trans (eq_none_of_putAll (hstands.symm.trans hnone))
  have hsame {r : Role} (hr : r ≠ .part) : G.view.file s'.storage (r.path G.config.kind path) =
      G.view.file s.storage (r.path G.config.kind path) := by
    have hrole (r' : Role) : r.path G.config.kind path ≠ r'.path G.config.kind file.path :=
      fun heq => hne (G.plain.path_inj hn hwr.names heq).2
    rw [sealing.file (hrole .signaturePart), putAll_of_not_mem, placing.other]
    · exact (hwr.isPart.ne hn hr).symm
    · exact hrole .record
    · intro hmem
      exact hrole _ (sealing.mem_signature hmem)
  rw [hsame (show Role.signaturePart ≠ .part by decide)]
  exact h.beside hn ((hsame (r := .record) (by decide)).symm.trans hnone)

lemma Records.publish (h : Records G pubs past last s) (hwr : Writes G st file s)
    (hne : st.objects ≠ []) (resolved : s₁.pipeline.stateOf file.lastLink = .resolved finish)
    (form : (file.whole G.config.kind st.items finish).encode = .ok content)
    (placing : Placing G.view file content s s₁)
    (sealing : Sealing G.view G.config.kind file.path (Hash.digest content)
      (file.whole G.config.kind st.items finish).metadataHash messages signature s₁ s') :
    Records G (pubs ++ [Writes.publication G st file finish content messages signature])
      (past ++ [st])
      (some (file.written G.config.kind st.items finish (signature.map Prod.fst))) s' where
  sound := sealing.sound
  grown := (h.grown.trans placing.pipeline.extends).trans sealing.pipeline.extends
  signer := sealing.signer.trans (placing.signer.trans h.signer)
  asked := by
    rw [sealing.asked, placing.asked, h.asked]
    simp [Writes.publication]
  published := by
    refine .snoc (h.published.mono (placing.pipeline.trans sealing.pipeline).extends) ?_
    have hinquiry := sealing.inquiry
    rw [placing.signer, h.signer, placing.asked, h.asked] at hinquiry
    refine hwr.valid hne resolved form placing.pipeline sealing.pipeline ⟨hinquiry, ?_⟩ ?_
    · intro q image hsig
      obtain ⟨hq, hm, x, y, hx, hy, henc⟩ := sealing.whole hsig
      rw [placing.signer, h.signer, placing.asked, h.asked] at hx hy
      rw [placing.signer, h.signer] at henc
      exact ⟨hq, hm, x, y, hx, hy, henc⟩
    · intro hsome
      rw [← h.beside_placing hwr placing]
      exact sealing.free hsome
  nodup := by
    rw [List.map_append, List.nodup_append]
    refine ⟨h.nodup, by simp, fun p hp q hq heq => ?_⟩
    rw [heq, List.mem_singleton.mp hq] at hp
    exact h.not_mem_of_free hwr.names placing.free hp
  placed := by
    rw [sealing.placed, placing.placed, h.placed]
    simp [Writes.publication]
  unread := by
    rw [sealing.unread, placing.unread, h.unread, List.flatMap_append]
    simp [Publication.unread, Writes.publication]
  last := by
    rw [List.getLast?_concat]
    rfl
  sublist := by
    rw [List.map_append, List.filter_append]
    refine List.Sublist.append h.sublist ?_
    simp [Writes.publication, hwr.fresh]
  files hp := h.publish_files hwr placing sealing hp
  beside := h.publish_beside hwr placing sealing

lemma Steady.tidy_beside (h : Steady G pubs c w s) (hR : G.reliable) (hw : w.phase = .writing file)
    {p : Path} (hp : G.InProgress p) (hne : p ≠ file.part) :
    G.view.file s.storage p = none ∨ G.view.file s.storage p = G.files p := by
  refine h.tidy hR hp fun file' hw' => ?_
  rw [hw] at hw'
  cases hw'
  exact hne

lemma Steady.publish (hsteady : Steady G pubs c w s) (hw : w.phase = .writing file)
    (hst : c.current = some st) (hwr : Writes G st file s) (hconfig : w.config = G.config)
    (undisturbed : s.Ready file.lastLink w.token → s₁.pipeline = s.pipeline)
    (placing : Placing G.view file content s s₁) {target : Path}
    (signing : Signing G.view w file.path (Hash.digest content)
      (file.whole G.config.kind st.items finish).metadataHash s₁ s' (some target))
    (hr : some target = signature.map Prod.fst)
    (sealing : Sealing G.view G.config.kind file.path (Hash.digest content)
      (file.whole G.config.kind st.items finish).metadataHash messages signature s₁ s') :
    Steady G (pubs ++ [Writes.publication G st file finish content messages signature]) c.leave
      { w with
        phase := .idle
        lastWritten := some (file.written G.config.kind st.items finish (some target)) } s' := by
  obtain ⟨k, hlink⟩ := hsteady.lastReady hw
  have hs₁ : s₁.pipeline = s.pipeline := undisturbed ⟨hsteady.calm, hsteady.token, k, hlink.2⟩
  obtain ⟨hpipe, hmean, hgone⟩ := signing.settled
  rw [hconfig] at hgone
  have hsame : s'.pipeline = s.pipeline := hpipe.trans hs₁
  refine
    { token := by rw [hsame]; exact hsteady.token
      calm := hmean.trans (placing.calm hsteady.calm)
      ready := by rw [hsame]; exact hsteady.ready
      lastReady := by rintro _ ⟨⟩
      writing := by rintro _ ⟨⟩
      all := ?_
      signed := ?_
      tidy := ?_ }
  · simp [hsteady.all, Course.leave, hst, Writes.publication, hwr.fresh]
  · intro b hb
    rw [List.mem_append, List.mem_singleton] at hb
    rcases hb with hb | rfl
    · exact hsteady.signed hb
    · have hsome : (signature.map Prod.fst).isSome := hr ▸ rfl
      rwa [Option.isSome_map] at hsome
  · intro p hR hp _
    by_cases hps : p = Role.signaturePart.path G.config.kind file.path
    · exact .inl (hps ▸ hgone)
    have hnot : p ∉ signature.toList.map Prod.fst := fun hmem =>
      G.not_inProgress hwr.names (Or.inr rfl) (sealing.mem_signature hmem ▸ hp)
    rw [sealing.file hps, putAll_of_not_mem hnot]
    by_cases hpart : p = file.part
    · exact .inl (hpart ▸ placing.part)
    · have hpath : p ≠ file.path := by
        rintro rfl
        exact G.not_inProgress (r := .record) hwr.names (Or.inl rfl) hp
      rw [placing.other hpart hpath]
      exact hsteady.tidy_beside hR hw hp hpart

lemma Steady.halt (hsteady : Steady G pubs c w s) (h : Records G pubs c.past last s)
    (hst : c.current = some st) (hwr : Writes G st file s)
    (hconfig : w.config = G.config) (placing : Placing G.view file content s s₁)
    (signing : Signing G.view w file.path (Hash.digest content)
      (file.whole G.config.kind st.items finish).metadataHash s₁ s' none) :
    Halted G (pubs ++ [Writes.publication G st file finish content messages signature]) c.leave
      { w with
        phase := .idle
        lastWritten := some (file.written G.config.kind st.items finish none) } s' := by
  have hthere : G.sure → G.files (Role.signaturePart.path G.config.kind file.path) ≠ none := by
    intro hR hnone
    have hsome := signing.isSome (G.storage hR)
      (by rw [placing.signer, h.signer]; exact fun call m => G.signs call m hR)
      (by rw [hconfig, h.beside_placing hwr placing, hnone])
    cases hsome
  refine ⟨signing.cancelled, nofun, ?_,
    fun hR => (hthere (G.assured hR) (G.clear hR hwr.names hwr.free)).elim,
    fun hR _ => .obstructed rfl (fun b hb => hsteady.signed hb) (hthere hR)⟩
  simp [hsteady.all, Course.leave, hst, Writes.publication, hwr.fresh]

end Publishing

lemma Account.free (h : Account G pubs c w s) (st : Stretch) {path : Path}
    (hname : Naming.recordPath G.config.exportDir st.time G.config.kind = .ok path)
    (htime : st.time ∉ c.past.map Stretch.time) (hfree : G.files path = none) :
    G.view.file s.storage path = none := by
  have hnot : st.time ∉ pubs.map fun b => b.stretch.time := by
    intro hmem
    obtain ⟨b, hb, htb⟩ := List.mem_map.mp hmem
    have hin := h.records.sublist.subset (List.mem_map_of_mem (f := Publication.stretch) hb)
    rw [← htb] at htime
    exact htime (List.mem_map_of_mem (List.mem_filter.mp hin).1)
  have hn : G.config.Names path := ⟨_, hname⟩
  have hfile := h.records.files (G.not_inProgress (r := .record) hn (Or.inl rfl))
  exact hfile.trans ((h.records.published.shelf_of_time hname hnot).trans hfree)

/-- What becomes of a window that is left: its file is put in place, or there is a reason why
not. Where there are no signatures the token has been cancelled. -/
inductive Leaving (G : Setting σ ω) (c : Course) (w : Writer ω) (s s' : Surroundings σ) :
    List Publication → Prop where
  | unwritten (unwritten : ∀ file, w.phase ≠ .writing file) : Leaving G c w s s' []
  | placed {b : Publication} {file : OpenFile ω} (writing : w.phase = .writing file)
    (stretch : c.current = some b.stretch)
    (unsigned : b.signature = none → s'.pipeline.isCancelled w.token = true) :
    Leaving G c w s s' [b]
  | blocked {file : OpenFile ω} (writing : w.phase = .writing file)
    (there : (G.view.file s.storage file.path).isSome) : Leaving G c w s s' []
  | givenUp {file : OpenFile ω} (writing : w.phase = .writing file)
    (cancelled : s'.pipeline.isCancelled w.token = true) : Leaving G c w s s' []

/-- It depends on the window, on its file and on the storage alone, and cancellations stay. -/
lemma Leaving.congr {d : Course} {v : Writer ω} {t t' : Surroundings σ} {more : List Publication}
    (h : Leaving G c w s s' more) (hc : d.current = c.current) (hw : v.phase = w.phase)
    (ht : v.token = w.token) (hs : t.storage = s.storage)
    (hg : s'.pipeline.Grows t'.pipeline) : Leaving G d v t t' more := by
  cases h with
  | unwritten unwritten => exact .unwritten (by rwa [hw])
  | placed writing stretch unsigned =>
    exact .placed (hw.trans writing) (hc.trans stretch) fun hnone =>
      hg.cancelled (by rw [ht]; exact unsigned hnone)
  | blocked writing there => exact .blocked (hw.trans writing) (by rwa [hs])
  | givenUp writing cancelled =>
    exact .givenUp (hw.trans writing) (hg.cancelled (by rwa [ht]))

lemma Account.holds (h : Account G pubs c w s) (hwr : Writes G st file s) :
    file.Holds G.view w.config.kind st.items s.storage := by
  rw [h.follows.config]
  exact hwr.holds

/-- What can come of finishing the open file. -/
lemma Account.gives_finishFile (h : Account G pubs c w s) (hwr : Writes G st file s) :
    (w.finishFile file : Act σ _).Gives s fun r s' => Finishing G.view w file st.items s s' r := by
  refine Writer.gives_finishFile ?_ h.records.sound ?_ (h.holds hwr)
  · rw [h.follows.config]
    exact G.plain.kind
  · rw [h.follows.config]
    exact G.reaches hwr.names

/-- **Finishing the file of a window** keeps the account. -/
theorem Account.finish (h : Account G pubs c w s) (hw : w.phase = .writing file)
    (hst : c.current = some st) (hne : st.objects ≠ [])
    (hdistinct : G.orderly → (c.stretches.map Stretch.time).Nodup) :
    (w.finish file : Act σ _).Gives s fun w' s' =>
      ∃ more, Account G (pubs ++ more) c.leave w' s' ∧ Leaving G c w s s' more := by
  unfold Writer.finish
  have hconfig := h.follows.config
  obtain ⟨st', hst', hwr⟩ := h.opened hw
  rw [hst] at hst'
  cases hst'
  refine (h.gives_finishFile hwr).bind fun r s' hfin => Act.gives_pure ?_
  cases hfin with
  | noEnd fault givenUp =>
    refine ⟨[], ?_, .givenUp hw givenUp.cancelled⟩
    rw [List.append_nil]
    refine h.giveUp hw givenUp.quiet hwr.isPart fun hO => ?_
    have hsteady := h.steady_of_writing hO hw
    obtain ⟨k, hlink⟩ := hsteady.lastReady hw
    exact (fault ⟨hsteady.calm, hsteady.token, k, hlink.2⟩).elim
  | failed fault givenUp =>
    refine ⟨[], ?_, .givenUp hw givenUp.cancelled⟩
    rw [List.append_nil]
    exact h.giveUp hw givenUp.quiet hwr.isPart fun _ =>
      ⟨givenUp.cancelled, fun hR => fault (G.storage hR)⟩
  | blocked there quiet gone =>
    refine ⟨[], ?_, .blocked hw there⟩
    rw [List.append_nil]
    refine h.giveUp hw quiet hwr.isPart fun hO => ?_
    have hfree := h.free st hwr.name (Course.time_not_mem_past (hdistinct hO) hst) hwr.free
    rw [hfree] at there
    cases there
  | @placed finish content s₁ signature resolved undisturbed form placing signing =>
    rw [hconfig] at form signing
    obtain ⟨messages, signature', hsig, sealing⟩ := signing.sealing
    rw [hconfig] at sealing
    have hunsigned : signature' = none → s'.pipeline.isCancelled w.token = true := by
      rintro rfl
      cases hsig
      exact signing.cancelled
    refine ⟨[Writes.publication G st file finish content messages signature'], ?_,
      .placed hw hst hunsigned⟩
    rw [show file.written w.config.kind = file.written G.config.kind by rw [hconfig]]
    have hpast : c.leave.past = c.past ++ [st] := by simp [Course.leave, hst]
    refine
      { follows := h.follows.leave _
        records := by
          rw [hpast, hsig]
          exact h.records.publish hwr hne resolved form placing sealing
        leads := fun hk =>
          (h.leads hk).mono (placing.pipeline.trans sealing.pipeline).extends
        opened := by rintro _ ⟨⟩
        state := fun hO => ?_ }
    have hsteady := h.steady_of_writing hO hw
    cases signature with
    | some target =>
      exact .inl (hsteady.publish hw hst hwr hconfig undisturbed placing signing hsig sealing)
    | none => exact .inr (hsteady.halt h.records hst hwr hconfig placing signing)

end SealedStream
