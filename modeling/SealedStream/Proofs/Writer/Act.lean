import Mathlib.Tactic.Common
import SealedStream.Proofs.RunningHash.Links
import SealedStream.Proofs.Storage.Writing
import SealedStream.Proofs.Transfer.Reading
import SealedStream.Writer.Basic

/-!
What can come of the writer's actions, and how what is known of two of them joins to what is known
of one after the other.
-/

namespace SealedStream

variable {σ ω α β : Type}

open Function (update)

def Event.placed? : Event → Option Path
  | .fileWritten file _ _ => some file
  | _ => none

/-- The record files put in place so far, in order. -/
def Surroundings.placed (s : Surroundings σ) : List Path := s.events.filterMap Event.placed?

def Event.unread? : Event → Option Path
  | .digestFailed file _ => some file
  | _ => none

def Surroundings.unread (s : Surroundings σ) : List Path := s.events.filterMap Event.unread?

/-- The event tells neither of the two. -/
def Event.isRoutine : Event → Bool
  | .fileWritten _ _ _ => false
  | .digestFailed _ _ => false
  | _ => true

lemma Event.placed?_of_isRoutine {e : Event} (h : e.isRoutine = true) : e.placed? = none := by
  cases e with
  | fileWritten => cases h
  | _ => rfl

lemma Event.unread?_of_isRoutine {e : Event} (h : e.isRoutine = true) : e.unread? = none := by
  cases e with
  | digestFailed => cases h
  | _ => rfl

def Surroundings.told (s : Surroundings σ) (e : Event) : Surroundings σ :=
  { s with events := s.events ++ [e] }

lemma Surroundings.unread_told (s : Surroundings σ) (e : Event) :
    (s.told e).unread = s.unread ++ e.unread?.toList := by
  rw [unread, told, List.filterMap_append, unread]
  cases h : e.unread? <;> simp [h]

lemma Surroundings.placed_told (s : Surroundings σ) (e : Event) :
    (s.told e).placed = s.placed ++ e.placed?.toList := by
  rw [placed, told, List.filterMap_append, placed]
  cases h : e.placed? <;> simp [h]

def Surroundings.having (s : Surroundings σ) (messages : List Bytes) : Surroundings σ :=
  { s with asked := s.asked ++ messages }

/-- A reader of the link with the token gets a hash at once, whatever others are up to. -/
def Surroundings.Ready (s : Surroundings σ) (l : Link) (t : Token) : Prop :=
  s.meanwhile = [] ∧ s.pipeline.isCancelled t = false ∧ ∃ h, s.pipeline.stateOf l = .resolved h

/-! ### Outcomes -/

namespace Act

/-- Whatever comes of an action from `s` satisfies `Q`. -/
def Gives (m : Act σ α) (s : Surroundings σ) (Q : α → Surroundings σ → Prop) : Prop :=
  ∀ a s', m s = some (a, s') → Q a s'

def Ends (m : Act σ α) (s : Surroundings σ) : Prop := ∃ a s', m s = some (a, s')

variable {m : Act σ α} {f : α → Act σ β} {s s' : Surroundings σ}
  {P : α → Surroundings σ → Prop} {Q : β → Surroundings σ → Prop}

lemma bind_eq_some {b : β} :
    (m >>= f) s = some (b, s') ↔ ∃ a s₁, m s = some (a, s₁) ∧ f a s₁ = some (b, s') := by
  show (m s).bind (fun x => f x.1 x.2) = _ ↔ _
  rw [Option.bind_eq_some_iff]
  simp

lemma Gives.bind (hm : m.Gives s P) (hf : ∀ a s₁, P a s₁ → (f a).Gives s₁ Q) :
    (m >>= f).Gives s Q := by
  intro b s' h
  obtain ⟨a, s₁, h₁, h₂⟩ := bind_eq_some.mp h
  exact hf a s₁ (hm a s₁ h₁) b s' h₂

lemma Gives.mono {P' : α → Surroundings σ → Prop} (hm : m.Gives s P)
    (h : ∀ a s', P a s' → P' a s') : m.Gives s P' :=
  fun a s' hs => h a s' (hm a s' hs)

lemma gives_pure {a : α} (h : P a s) : (pure a : Act σ α).Gives s P := by
  rintro _ _ ⟨⟩
  exact h

lemma Ends.bind (hm : m.Ends s) (hf : ∀ a s₁, m s = some (a, s₁) → (f a).Ends s₁) :
    (m >>= f).Ends s := by
  obtain ⟨a, s₁, h₁⟩ := hm
  obtain ⟨b, s', h₂⟩ := hf a s₁ h₁
  exact ⟨b, s', bind_eq_some.mpr ⟨a, s₁, h₁, h₂⟩⟩

lemma ends_pure (a : α) : (pure a : Act σ α).Ends s := ⟨a, s, rfl⟩

end Act

/-! ### What stays as it is -/

variable [Storage σ ω]

/-- From `s` to `s'` only files at the paths that may be touched have changed, and what was reported
is routine. -/
structure Touches (V : FileView σ ω) (touched : Path → Prop) (s s' : Surroundings σ) : Prop where
  sound : V.Sound s'.storage
  file {p : Path} : ¬touched p → V.file s'.storage p = V.file s.storage p
  pipeline : s'.pipeline = s.pipeline
  signer : s'.signer = s.signer
  asked : s'.asked = s.asked
  meanwhile : s'.meanwhile = s.meanwhile
  coming : s'.coming = s.coming
  placed : s'.placed = s.placed
  unread : s'.unread = s.unread

/-- The same, while links may have settled and tokens been cancelled. -/
structure Quiet (V : FileView σ ω) (touched : Path → Prop) (s s' : Surroundings σ) : Prop where
  sound : V.Sound s'.storage
  file {p : Path} : ¬touched p → V.file s'.storage p = V.file s.storage p
  pipeline : s.pipeline.Grows s'.pipeline
  signer : s'.signer = s.signer
  asked : s'.asked = s.asked
  calm : s.meanwhile = [] → s'.meanwhile = []
  placed : s'.placed = s.placed
  unread : s'.unread = s.unread

variable {V : FileView σ ω} {touched touched' : Path → Prop} {s s₁ s' : Surroundings σ}

lemma Touches.refl (hs : V.Sound s.storage) : Touches V touched s s :=
  ⟨hs, fun _ => rfl, rfl, rfl, rfl, rfl, rfl, rfl, rfl⟩

lemma Touches.trans (h : Touches V touched s s₁) (h' : Touches V touched s₁ s') :
    Touches V touched s s' where
  sound := h'.sound
  file hp := (h'.file hp).trans (h.file hp)
  pipeline := h'.pipeline.trans h.pipeline
  signer := h'.signer.trans h.signer
  asked := h'.asked.trans h.asked
  meanwhile := h'.meanwhile.trans h.meanwhile
  coming := h'.coming.trans h.coming
  placed := h'.placed.trans h.placed
  unread := h'.unread.trans h.unread

lemma Touches.quiet (h : Touches V touched s s') : Quiet V touched s s' :=
  { h with
    pipeline := by rw [h.pipeline]; exact .refl _
    calm := fun hm => by rw [h.meanwhile, hm] }

lemma Quiet.trans (h : Quiet V touched s s₁) (h' : Quiet V touched s₁ s') :
    Quiet V touched s s' where
  sound := h'.sound
  file hp := (h'.file hp).trans (h.file hp)
  pipeline := h.pipeline.trans h'.pipeline
  signer := h'.signer.trans h.signer
  asked := h'.asked.trans h.asked
  calm hm := h'.calm (h.calm hm)
  placed := h'.placed.trans h.placed
  unread := h'.unread.trans h.unread

lemma Quiet.mono (h : Quiet V touched s s') (ht : ∀ p, touched p → touched' p) :
    Quiet V touched' s s' :=
  { h with file := fun hp => h.file fun h' => hp (ht _ h') }

lemma Touches.having (h : Touches V touched s s') (ms : List Bytes) :
    Touches V touched (s.having ms) (s'.having ms) :=
  { h with asked := by rw [Surroundings.having, Surroundings.having, h.asked] }

lemma Touches.told (h : Touches V touched s s') (e : Event) :
    Touches V touched (s.told e) (s'.told e) :=
  { h with
    placed := by rw [Surroundings.placed_told, Surroundings.placed_told, h.placed]
    unread := by rw [Surroundings.unread_told, Surroundings.unread_told, h.unread] }

lemma Surroundings.having_having (s : Surroundings σ) (xs ys : List Bytes) :
    (s.having xs).having ys = s.having (xs ++ ys) := by
  simp [having]

lemma touches_update {t : σ} {p : Path} {c : Option Bytes} (hs : V.Sound t)
    (hf : V.file t = update (V.file s.storage) p c) :
    Touches V (· = p) s { s with storage := t } :=
  ⟨hs, fun hp => by rw [hf, Function.update_of_ne hp], rfl, rfl, rfl, rfl, rfl, rfl, rfl⟩

lemma touches_same {t : σ} (hs : V.Sound t) (hf : V.file t = V.file s.storage) :
    Touches V touched s { s with storage := t } :=
  ⟨hs, fun _ => by rw [hf], rfl, rfl, rfl, rfl, rfl, rfl, rfl⟩

/-! ### The single actions -/

namespace Act

variable {p q : Path} {o : ω} {bs : Bytes}

lemma gives_told {e : Event} : (report e : Act σ Unit).Gives s fun _ s' => s' = s.told e := by
  rintro _ _ ⟨⟩
  rfl

lemma gives_report {e : Event} (touched : Path → Prop) (hs : V.Sound s.storage)
    (he : e.isRoutine = true) :
    (report e : Act σ Unit).Gives s fun _ s' =>
      Touches V touched s s' ∧ s'.storage = s.storage := by
  refine gives_told.mono ?_
  rintro _ _ rfl
  refine ⟨⟨hs, fun _ => rfl, rfl, rfl, rfl, rfl, rfl, ?_, ?_⟩, rfl⟩
  · simp [Surroundings.placed_told, Event.placed?_of_isRoutine he]
  · simp [Surroundings.unread_told, Event.unread?_of_isRoutine he]

lemma gives_cancel {t : Token} (touched : Path → Prop) (hs : V.Sound s.storage) :
    (cancel t : Act σ Unit).Gives s fun _ s' =>
      Quiet V touched s s' ∧ s'.storage = s.storage ∧ s'.pipeline.isCancelled t = true := by
  rintro _ _ ⟨⟩
  exact ⟨⟨hs, fun _ => rfl, Pipeline.grows_cancel _ _, rfl, rfl, id, rfl, rfl⟩, rfl, by simp⟩

/-- A fault is told and the token cancelled, before anything else is done. -/
lemma gives_fault {α : Type} {e : Event} {t : Token} {m : Act σ α} {Q : α → Surroundings σ → Prop}
    (touched : Path → Prop) (hs : V.Sound s.storage) (he : e.isRoutine = true)
    (h : ∀ s₁, Quiet V touched s s₁ → s₁.storage = s.storage →
      s₁.pipeline.isCancelled t = true → m.Gives s₁ Q) :
    (do report e; cancel t; m : Act σ α).Gives s Q := by
  refine (gives_report touched hs he).bind fun _ s₁ ⟨h₁, heq₁⟩ => ?_
  refine (gives_cancel touched h₁.sound).bind fun _ s₂ ⟨h₂, heq₂, hc⟩ => ?_
  exact h s₂ (h₁.quiet.trans h₂) (heq₂.trans heq₁) hc

lemma gives_present (hs : V.Sound s.storage) (hp : V.Reach p) :
    (present p : Act σ Bool).Gives s fun b s' =>
      s' = s ∧ b = (V.file s.storage p).isSome := by
  rintro _ _ ⟨⟩
  exact ⟨rfl, V.present_eq hs hp⟩

lemma gives_remove (hs : V.Sound s.storage) (hp : V.Reach p) :
    (remove p : Act σ _).Gives s fun r s' => Touches V (· = p) s s' ∧
      match r with
      | .ok () => V.file s'.storage p = none
      | .error _ => V.file s'.storage p = V.file s.storage p ∧
          ((V.file s.storage p).isSome → ¬V.Removes) := by
  rintro r s' h
  rcases hr : Storage.remove p s.storage with ⟨r', t⟩
  have heq : (r', { s with storage := t }) = (r, s') := by
    simpa [remove, onStorage, hr] using h
  cases heq
  cases r with
  | ok _ =>
    obtain ⟨hs', hf⟩ := V.remove_ok hs hp hr
    exact ⟨touches_update hs' hf, by simp [hf]⟩
  | error e =>
    obtain ⟨hs', hf⟩ := V.remove_error hs hp hr
    exact ⟨touches_same hs' hf, by simp [hf], fun hn => V.not_removes hs hp hn hr⟩

lemma gives_create (hs : V.Sound s.storage) (hp : V.Reach p) :
    (create p : Act σ (Except Failure ω)).Gives s fun r s' => Touches V (· = p) s s' ∧
      match r with
      | .ok o => V.file s.storage p = none ∧ V.Open s'.storage o p []
      | .error _ => V.file s'.storage p = V.file s.storage p ∧
          (V.file s.storage p = none → ¬V.NeverFails) := by
  rintro r s' h
  rcases hr : Storage.create p s.storage with ⟨r', t⟩
  have heq : (r', { s with storage := t }) = (r, s') := by
    simpa [create, onStorage, hr] using h
  cases heq
  cases r with
  | ok o =>
    obtain ⟨hs', hn, ho, c, hf⟩ := V.create_ok hs hp hr
    exact ⟨touches_update hs' hf, hn, ho⟩
  | error e =>
    obtain ⟨hs', hf⟩ := V.create_error hs hp hr
    exact ⟨touches_same hs' hf, by simp [hf], fun hn => V.not_neverFails_of_create hs hp hn hr⟩

lemma gives_close (hs : V.Sound s.storage) (ho : V.Open s.storage o p bs) :
    (close o : Act σ _).Gives s fun r s' => Touches V (· = p) s s' ∧
      match r with
      | .ok () => V.file s'.storage p = some bs
      | .error _ => ¬V.NeverFails := by
  rintro r s' h
  rcases hr : Storage.close o s.storage with ⟨r', t⟩
  have heq : (r', { s with storage := t }) = (r, s') := by
    simpa [close, onStorage, hr] using h
  cases heq
  cases r with
  | ok _ =>
    obtain ⟨hs', hf⟩ := V.close_ok hs ho hr
    exact ⟨touches_update hs' hf, by simp [hf]⟩
  | error e =>
    obtain ⟨hs', c, hf⟩ := V.close_error hs ho hr
    exact ⟨touches_update hs' hf, V.not_neverFails_of_close hs ho hr⟩

lemma gives_rename (hs : V.Sound s.storage) (hp : V.Reach p) (hq : V.Reach q) (hpq : p ≠ q) :
    (rename p q : Act σ _).Gives s fun r s' =>
      match r with
      | .ok () => Touches V (fun x => x = p ∨ x = q) s s' ∧ V.file s'.storage p = none ∧
          ∃ c, V.file s.storage p = some c ∧ V.file s'.storage q = some c
      | .error _ => Touches V (· = p) s s' ∧ V.file s'.storage p = V.file s.storage p ∧
          ((V.file s.storage p).isSome → ¬V.NeverFails) := by
  rintro r s' h
  rcases hr : Storage.rename p q s.storage with ⟨r', t⟩
  have heq : (r', { s with storage := t }) = (r, s') := by
    simpa [rename, onStorage, hr] using h
  cases heq
  cases r with
  | ok _ =>
    obtain ⟨hs', c, hc, hf⟩ := V.rename_ok hs hp hq hpq hr
    refine ⟨⟨hs', ?_, rfl, rfl, rfl, rfl, rfl, rfl, rfl⟩, by simp [hf, hpq], c, hc, by simp [hf]⟩
    intro x hx
    rw [not_or] at hx
    rw [hf, Function.update_of_ne hx.2, Function.update_of_ne hx.1]
  | error e =>
    obtain ⟨hs', hf⟩ := V.rename_error hs hp hq hpq hr
    exact ⟨touches_same hs' hf, by simp [hf],
      fun hn => V.not_neverFails_of_rename hs hp hq hpq hn hr⟩

lemma gives_digest (touched : Path → Prop) (hs : V.Sound s.storage) (hp : V.Reach p) :
    (digest p : Act σ _).Gives s fun r s' => Touches V touched s s' ∧
      match r with
      | .ok h => ∃ c, V.file s.storage p = some c ∧ h = Hash.digest c
      | .error _ => (V.file s.storage p).isSome → ¬V.NeverFails := by
  rintro r s' h
  rcases hr : Storage.openRead p s.storage with ⟨r', t⟩
  have heq : (r'.bind Source.digest, { s with storage := t }) = (r, s') := by
    simpa [digest, Storage.digest, onStorage, hr] using h
  cases heq
  cases r' with
  | error e =>
    obtain ⟨hs', hf⟩ := V.read_error hs hp hr
    exact ⟨touches_same hs' hf, fun hn => V.not_neverFails_of_openRead hs hp hn hr nofun⟩
  | ok source =>
    obtain ⟨hs', hf, hread⟩ := V.read_ok hs hp hr
    refine ⟨touches_same hs' hf, ?_⟩
    rw [Except.bind, Source.digest_eq]
    cases hc : source.readToEnd with
    | ok c => exact ⟨c, hread c hc, rfl⟩
    | error e =>
      refine fun hn => V.not_neverFails_of_openRead hs hp hn hr ?_
      rintro _ c ⟨⟩
      simp [hc]

lemma gives_writeSections {sections : List Section} (hs : V.Sound s.storage)
    (ho : V.Open s.storage o p bs) :
    (writeSections sections o : Act σ _).Gives s fun r s' => Touches V (· = p) s s' ∧
      V.Puts p bs (Field.join (sections.flatMap Section.fields)) s.storage
        (r.1, r.2, s'.storage) := by
  rintro ⟨r, o'⟩ s' h
  have hp := FileView.puts_sections sections hs ho
  rcases hr : Section.writeList sections (o, s.storage) with ⟨r', o'', t⟩
  rw [hr] at hp
  have takes : ∃ d, V.Takes p s.storage t o'' d := by
    cases hp with
    | all _ takes => exact ⟨_, takes⟩
    | part takes _ => exact ⟨_, takes⟩
  have heq : ((r', o''), { s with storage := t }) = ((r, o'), s') := by
    simpa [writeSections, onStorage, hr] using h
  cases heq
  obtain ⟨d, hs', ⟨c, hf⟩, -⟩ := takes
  exact ⟨touches_update hs' hf, hp⟩

lemma gives_await {l : Link} {t : Token} (touched : Path → Prop) (hs : V.Sound s.storage) :
    (await l t : Act σ _).Gives s fun r s' => Quiet V touched s s' ∧ s'.storage = s.storage ∧
      (s.Ready l t → s'.pipeline = s.pipeline) ∧
      match r with
      | .ok h => s'.pipeline.stateOf l = .resolved h ∧ s.pipeline.isCancelled t = false
      | .error _ => ¬s.Ready l t := by
  intro r s' h
  obtain ⟨⟨a, coming, q⟩, hw, heq⟩ := Option.map_eq_some_iff.mp h
  cases heq
  obtain ⟨hg, hr⟩ := Pipeline.wait_eq_some hw
  have hready : s.Ready l t → q = s.pipeline ∧ ∃ h, r = .ok h := by
    rintro ⟨hm, ht, h, hl⟩
    have hread : s.overtaken.pipeline.read l t = some (.ok h) := by
      rw [Surroundings.overtaken, hm]
      exact Pipeline.read_resolved hl ht
    rw [Pipeline.wait_of_read hread, Surroundings.overtaken, hm] at hw
    cases hw
    exact ⟨rfl, _, rfl⟩
  have hgrows : s.pipeline.Grows q := (Pipeline.grows_foldl _ _).trans hg
  refine ⟨⟨hs, fun _ => rfl, hgrows, rfl, rfl, ?_, rfl, rfl⟩, rfl, fun h => (hready h).1, ?_⟩
  · intro hm
    simp [Surroundings.overtaken, hm]
  · cases r with
    | ok h =>
      obtain ⟨hl, ht⟩ := Pipeline.read_ok hr
      exact ⟨hl, hgrows.alive ht⟩
    | error e =>
      intro h
      obtain ⟨-, _, ha⟩ := hready h
      cases ha

lemma gives_onStorage {f : σ → α × σ} :
    (onStorage f).Gives s fun a s' =>
      a = (f s.storage).1 ∧ s' = { s with storage := (f s.storage).2 } := by
  rintro _ _ ⟨⟩
  exact ⟨rfl, rfl⟩

lemma gives_sign {m : Bytes} :
    (sign m : Act σ _).Gives s fun r s' =>
      r = s.signer.sign s.asked.length m ∧ s' = s.having [m] := by
  rintro _ _ ⟨⟩
  exact ⟨rfl, rfl⟩

end Act

end SealedStream
