import SealedStream.Proofs.Signature.RoundTrip
import SealedStream.Proofs.Stream.Preservation
import SealedStream.Proofs.Stream.Seals

/-!
What a crash does to signatures.

Of the record files that a writer puts in place all but the last are signed, whatever fails. So a
crash leaves at most one without signatures, and what is run after it passes that one over.
-/

namespace SealedStream

open Naming (Role)

variable {σ ω τ υ : Type} [Storage σ ω] [Storage τ υ] {V : FileView σ ω} {W : FileView τ υ}
  {G : Setting σ ω} {K : Setting τ υ} {kind : StreamKind} {path : Path} {s : Surroundings σ}
  {r : Surroundings τ} {xs ys pubs more : List Publication} {x b : Publication}
  {past past' : List Stretch} {last last' : Option WrittenFile} {c : Course} {w : Writer ω}

/-- Beside a record file stands a signature file that is about its bytes. -/
def FileView.Sealed (V : FileView σ ω) (kind : StreamKind) (s : σ) (path : Path) : Prop :=
  ∃ content image signatures, V.file s path = some content ∧
    V.file s (Naming.signaturePath path kind.signatureExtension) = some image ∧
    SignatureFile.decode kind.signatureHeader.length image = .ok signatures ∧
    signatures.file.hash = Hash.digest content

lemma FileView.Sealed.congr {s : σ} {t : τ} (h : V.Sealed kind s path)
    (hrecord : W.file t path = V.file s path)
    (hsignature : W.file t (Naming.signaturePath path kind.signatureExtension) =
      V.file s (Naming.signaturePath path kind.signatureExtension)) : W.Sealed kind t path := by
  rwa [Sealed, hrecord, hsignature]

lemma FileView.not_sealed {s : σ}
    (hnone : V.file s (Naming.signaturePath path kind.signatureExtension) = none) :
    ¬V.Sealed kind s path := by
  rintro ⟨content, image, signatures, -, himage, -⟩
  exact nomatch hnone.symm.trans himage

/-- **A publication with signatures** is sealed. -/
lemma Records.sealed (h : Records G pubs past last s) (hb : b ∈ pubs)
    (hsigned : b.signature.isSome) : G.view.Sealed G.config.kind s.storage b.path := by
  obtain ⟨⟨q, image⟩, hsig⟩ := Option.isSome_iff_exists.mp hsigned
  have hcontent := h.content hb
  obtain ⟨before, after, rfl⟩ := List.append_of_mem hb
  obtain ⟨-, hseals⟩ := h.seals hsig
  obtain ⟨y, z, -, -, hencode⟩ := hseals.answers
  exact ⟨b.content, image, _, hcontent, hseals.there, SignatureFile.decode_encoded hencode, rfl⟩

lemma Records.unsigned (h : Records G pubs past last s) (hb : b ∈ pubs)
    (hunsigned : b.signature = none) :
    G.view.file s.storage (Role.signature.path G.config.kind b.path) =
      G.files (Role.signature.path G.config.kind b.path) := by
  obtain ⟨call, hvalid⟩ := h.published.valid hb
  refine h.unsealed hvalid.names fun b' hb' hpath => ?_
  rwa [List.inj_on_of_nodup_map h.nodup hb' hb hpath]

/-! ### All but the last -/

/-- All publications but the last have their signatures. -/
def Publication.SignedBefore (pubs : List Publication) : Prop :=
  ∀ b ∈ pubs.dropLast, b.signature.isSome

lemma Publication.signedBefore_nil : SignedBefore [] := by
  rintro b ⟨⟩

lemma Publication.SignedBefore.getLast?_eq (h : SignedBefore pubs) (hb : b ∈ pubs)
    (hunsigned : b.signature = none) : pubs.getLast? = some b := by
  have hne : pubs ≠ [] := List.ne_nil_of_mem hb
  rw [← List.dropLast_append_getLast hne, List.mem_append, List.mem_singleton] at hb
  rcases hb with hb | rfl
  · simpa [hunsigned] using h b hb
  · exact List.getLast?_eq_some_getLast hne

lemma Account.signedBefore_append (h : Account G pubs c w s) (hO : G.orderly)
    (hpubs : Publication.SignedBefore pubs) {s' : Surroundings σ} (hputting : Putting w s' more) :
    Publication.SignedBefore (pubs ++ more) := by
  cases hputting with
  | nothing => rwa [List.append_nil]
  | file writing _ =>
    intro b hb
    rw [List.dropLast_concat] at hb
    exact (h.steady_of_writing hO writing).signed hb

/-- **All but the last are signed** after a run. -/
theorem Account.signedBefore_run {ops : List Operation} {t t' : Stage σ ω}
    (h : Account G pubs c t.writer t.world) (hO : G.orderly) (hc : c.Grounded)
    (hsteps : Step.Admitted G c (ops.map .call)) (hpubs : Publication.SignedBefore pubs)
    (hrun : Stage.run (ops.map .call) t = some t') :
    ∃ more, Account G (pubs ++ more) (c.run G.clock ops) t'.writer t'.world ∧
      Publication.SignedBefore (pubs ++ more) := by
  induction ops generalizing t pubs c with
  | nil =>
    cases hrun
    exact ⟨[], by rwa [List.append_nil], by rwa [List.append_nil]⟩
  | cons op ops ih =>
    rw [List.map_cons] at hsteps hrun
    rw [Stage.run_cons, Option.bind_eq_some_iff] at hrun
    obtain ⟨t₁, hstep, hrun⟩ := hrun
    obtain ⟨⟨⟨reply, w⟩, s⟩, happly, rfl⟩ := Option.map_eq_some_iff.mp hstep
    obtain ⟨⟨more, h₁, hputting⟩, -⟩ := h.apply hsteps.operation
      (fun _ => hc.current_nonempty) hsteps.distinct_step _ _ happly
    obtain ⟨more', h', hpubs'⟩ := ih (t := ⟨w, s, t.accepted ++ op.taken reply⟩) h₁
      (hc.step G.clock op) hsteps.rest (h.signedBefore_append hO hpubs hputting) hrun
    refine ⟨more ++ more', ?_, ?_⟩
    · rw [← List.append_assoc]
      exact h'
    · rwa [← List.append_assoc]

/-! ### A run over what another has left -/

section

variable (h : Records G xs past last s) (h' : Records K ys past' last' r)
  (hfound : ∀ p, G.config.Names p ∨ (∃ q, G.config.Names q ∧
    p = Role.signature.path G.config.kind q) → K.files p = G.view.file s.storage p)

include h h' hfound

lemma Records.path_not_mem (hx : x ∈ xs) : x.path ∉ ys.map Publication.path := by
  intro hmem
  obtain ⟨y, hy, hpath⟩ := List.mem_map.mp hmem
  obtain ⟨call, hvalid⟩ := h'.published.valid hy
  obtain ⟨call', hvalid'⟩ := h.published.valid hx
  obtain ⟨-, q, hq, hfree⟩ := (Setting.fresh_iff _).mp hvalid.fresh
  cases hq.symm.trans hvalid.name
  rw [hpath, hfound _ (.inl hvalid'.names), h.content hx] at hfree
  cases hfree

/-- **What the first run has put in place** is sealed after the second just if it was before. -/
lemma Records.sealed_iff_before (hK : K.config = G.config) (hx : x ∈ xs) :
    K.view.Sealed G.config.kind r.storage x.path ↔
      G.view.Sealed G.config.kind s.storage x.path := by
  obtain ⟨call, hvalid⟩ := h.published.valid hx
  have hnot := h.path_not_mem h' hfound hx
  have hrecord : K.view.file r.storage x.path = G.view.file s.storage x.path := by
    rw [h'.untouched (hK ▸ hvalid.names) hnot, hfound _ (.inl hvalid.names)]
  have hsignature : K.view.file r.storage (Role.signature.path G.config.kind x.path) =
      G.view.file s.storage (Role.signature.path G.config.kind x.path) := by
    rw [← hfound _ (.inr ⟨_, hvalid.names, rfl⟩), ← hK]
    exact h'.unsealed (hK ▸ hvalid.names) fun y hy hpath =>
      (hnot (hpath ▸ List.mem_map_of_mem hy)).elim
  exact ⟨fun hsealed => hsealed.congr hrecord.symm hsignature.symm,
    fun hsealed => hsealed.congr hrecord hsignature⟩

end

/-! ### Crashes -/

namespace Outset

variable {initial : Hash} {config : Config} {os : List StreamObject} {b : Outset σ ω}
  {t : Stage σ ω}

/-- **Of a batch all files but the last are signed**, even if storage and signer fail. -/
theorem signedBefore_batch (h : b.Serves config) (hcalm : b.meanwhile = []) (initial : Hash)
    (hsorted : os.Pairwise fun x y : StreamObject => x.timestamp ≤ y.timestamp)
    (hnamed : ∀ x ∈ os, ∃ text, x.timestamp.toIso = .ok text)
    (hresolved : ∀ x ∈ os, ∃ k, b.pipeline.Holds x.link k) :
    ∃ t pubs, b.reached config ((Operation.batch initial os).map .call) = some t ∧
      Account (h.straight False False.elim) pubs (h.course (Operation.batch initial os))
        t.writer t.world ∧
      Publication.SignedBefore pubs := by
  obtain ⟨t, -, ht, -⟩ := account_batch h False.elim hcalm initial hsorted hnamed hresolved
  obtain ⟨t₀, hstart, hrun⟩ := Option.bind_eq_some_iff.mp ht
  have hsteps : Step.Admitted (h.straight False False.elim)
      (Course.start config.completeWindow) ((Operation.batch initial os).map .call) :=
    admitted_ordered h (provides_batch hnamed hresolved) (startsFrom_batch initial os)
      (by simp [Operation.batch]) (by simp [Operation.batch])
      (Course.nodup_batch h.plain.clock config.completeWindow initial hsorted) False.elim
  obtain ⟨h₀, -⟩ := Account.start (h.begins_straight False.elim hcalm) hstart
  obtain ⟨pubs, account, hsigned⟩ := h₀.signedBefore_run trivial (Course.grounded_start _) hsteps
    Publication.signedBefore_nil hrun
  exact ⟨t, pubs, ht, account, hsigned⟩

/-- The path is that of the last record file that a run has put in place, and it has no signature
file. -/
def Unsealed (b : Outset σ ω) (config : Config) (t : Stage σ ω) (path : Path) : Prop :=
  t.world.placed.getLast? = some path ∧
    b.view.file t.world.storage (Naming.signaturePath path config.kind.signatureExtension) = none

lemma sealed_iff_not_unsealed {pubs : List Publication} {h : b.Serves config}
    (account : Account (h.straight False False.elim) pubs c t.writer t.world)
    (hpubs : Publication.SignedBefore pubs) {x : Publication} (hx : x ∈ pubs)
    (hempty : b.view.file b.storage
      (Naming.signaturePath x.path config.kind.signatureExtension) = none) :
    b.view.Sealed config.kind t.world.storage x.path ↔ ¬b.Unsealed config t x.path := by
  cases hsig : x.signature with
  | some signature =>
    have hsealed := account.records.sealed hx (by rw [hsig]; rfl)
    exact ⟨fun _ hunsealed => FileView.not_sealed hunsealed.2 hsealed, fun _ => hsealed⟩
  | none =>
    have hnone := (account.records.unsigned hx hsig).trans hempty
    have hlast : t.world.placed.getLast? = some x.path := by
      rw [account.records.placed, List.getLast?_map, hpubs.getLast?_eq hx hsig]
      rfl
    exact ⟨fun hsealed => (FileView.not_sealed hnone hsealed).elim, fun hnot =>
      (hnot ⟨hlast, hnone⟩).elim⟩

/-- **After a crash every record file ends up signed but for one at most.** Objects whose times do
not go back are handed to a writer over an empty directory, which is then closed, and after any
number of operations the storage crashes: no operation has an effect any more. Then the same objects
are handed to a new writer over what is left, where unfinished files may hold anything, and it is
closed, while nothing fails. Unless a payload was too long to be written, every record file in the
directory then has a signature file beside it with the digest of its bytes, except for the last file
that the first run has put in place, if the crash came before its signature file was in place: the
second run passes it over, and it stays without. -/
theorem crash_seals (hb : b.Serves config) (hs : b.Smooth config)
    (hempty : ∀ path, config.Names path → b.view.file b.storage path = none ∧
      b.view.file b.storage (Naming.signaturePath path config.kind.signatureExtension) = none)
    (hsorted : os.Pairwise fun x y : StreamObject => x.timestamp ≤ y.timestamp)
    (hnamed : ∀ x ∈ os, ∃ text, x.timestamp.toIso = .ok text)
    (hresolved : ∀ x ∈ os, ∃ k, b.pipeline.Holds x.link k) (n : ℕ) :
    ∃ t, (b.crashing n).reached config ((Operation.batch initial os).map .call) = some t ∧
      b.view.Sound t.world.storage.inner ∧
      ∀ c : Outset τ υ, c.Serves config → c.Reliable →
        c.Finds config (b.view.file t.world.storage.inner) →
        (∀ x ∈ os, ∃ k, c.pipeline.Holds x.link k) →
        ∃ u, c.reached config ((Operation.batch initial os).map .call) = some u ∧
          ((∀ x ∈ os, x.item.Fits) → u.Unbroken) ∧
          (u.Unbroken → ∀ path, config.Names path → (c.view.file u.world.storage path).isSome →
            (c.view.Sealed config.kind u.world.storage path ↔
              ¬(b.crashing n).Unsealed config t path)) := by
  obtain ⟨t, xs, ht, hcrashed, hsigned⟩ := signedBefore_batch (hb.crashing n) hs.calm initial
    hsorted hnamed hresolved
  refine ⟨t, ht, hcrashed.records.sound, fun c hc hreliable hfinds hlinks => ?_⟩
  have hdependable : c.Dependable config :=
    Finds.dependable hcrashed.records (fun path hn => (hs.tidy hn).2) hfinds hreliable
  obtain ⟨u, ys, hu, hreplayed⟩ := account_batch hc (fun _ : True => hdependable) hreliable.calm
    initial hsorted hnamed hlinks
  refine ⟨u, hu, fun hfits => (hc.steady_batch hreplayed hfits).token, ?_⟩
  intro hunbroken path hn hsome
  have hsteady := (hreplayed.steady trivial).resolve_right fun hl =>
    nomatch hunbroken.symm.trans hl.cancelled
  have hfound : ∀ p, config.Names p ∨ (∃ q, config.Names q ∧
      p = Role.signature.path config.kind q) →
        c.view.file c.storage p = b.view.file t.world.storage.inner p := by
    rintro p (hp | ⟨q, hq, rfl⟩)
    · exact hfinds.record hb.plain hp
    · exact hfinds _ fun hun => ((hb.exposed False).not_inProgress hq (.inr rfl) hun).elim
  by_cases hmem : path ∈ ys.map Publication.path
  · -- what the second run has put in place
    obtain ⟨y, hy, rfl⟩ := List.mem_map.mp hmem
    have hsealed := hreplayed.records.sealed hy (hsteady.signed hy)
    refine ⟨fun _ hunsealed => ?_, fun _ => hsealed⟩
    have hlast := List.mem_of_getLast? hunsealed.1
    rw [hcrashed.records.placed] at hlast
    obtain ⟨x, hx, hpath⟩ := List.mem_map.mp hlast
    exact hcrashed.records.path_not_mem hreplayed.records hfound hx (hpath ▸ hmem)
  · -- what was there before it
    have hleft : c.view.file u.world.storage path = b.view.file t.world.storage.inner path :=
      (hreplayed.records.untouched hn hmem).trans (hfound path (.inl hn))
    have hplaced : path ∈ xs.map Publication.path := by
      by_contra hnot
      have hnone := hleft.trans ((hcrashed.records.untouched hn hnot).trans (hempty path hn).1)
      exact nomatch hsome.symm.trans (congrArg Option.isSome hnone)
    obtain ⟨x, hx, rfl⟩ := List.mem_map.mp hplaced
    exact (hcrashed.records.sealed_iff_before hreplayed.records hfound rfl hx).trans
      (sealed_iff_not_unsealed hcrashed hsigned hx (hempty x.path hn).2)

/-- The small stream, where both links hold the same hash. -/
def alike : Outset Disk DiskOutput :=
  { sample with pipeline := ⟨fun _ => .resolved .zero, fun _ => false, 2, 0⟩ }

lemma serves_alike : alike.Serves .standard :=
  ⟨serves_sample.plain, serves_sample.sound, serves_sample.reaches⟩

/-- After seventeen operations its first record file has just been moved into place. -/
lemma exists_unsealed {t : Stage (Crashing Disk) DiskOutput}
    (ht : (alike.crashing 17).reached .standard ((Operation.batch .zero few).map .call) = some t) :
    ∃ path ∈ t.world.placed, (alike.crashing 17).Unsealed .standard t path := by
  have hlast : ((alike.crashing 17).reached .standard
      ((Operation.batch .zero few).map .call)).any (fun t => t.world.placed.getLast?.any fun path =>
        (t.world.storage.inner.file (Naming.signaturePath path
          Config.standard.kind.signatureExtension)).isNone) = true := by decide +kernel
  rw [ht, Option.any_some] at hlast
  obtain ⟨path, hpath, hnone⟩ := (Option.any_eq_true ..).mp hlast
  exact ⟨path, List.mem_of_getLast? hpath, hpath, Option.isNone_iff_eq_none.mp hnone⟩

theorem crash_seals_alike :
    ∃ (t : Stage (Crashing Disk) DiskOutput) (u : Stage Disk DiskOutput) (path : Path),
      (alike.crashing 17).reached .standard ((Operation.batch .zero few).map .call) = some t ∧
      { alike with storage := t.world.storage.inner }.reached .standard
        ((Operation.batch .zero few).map .call) = some u ∧
      u.Unbroken ∧ (u.world.storage.file path).isSome ∧
      ¬(Disk.view ["record-streams"]).Sealed Config.standard.kind u.world.storage path := by
  have hlinks : ∀ x ∈ few, ∃ k, alike.pipeline.Holds x.link k := by
    have hslot : ∀ x ∈ few, x.link.slot < 2 := by decide
    exact fun x hx => ⟨.zero, hslot x hx, rfl⟩
  obtain ⟨t, ht, hsound, hreplay⟩ := crash_seals (τ := Disk) (υ := DiskOutput) serves_alike
    ⟨smooth_sample.storage, smooth_sample.signs, rfl, smooth_sample.tidy⟩
    (fun _ _ => ⟨Disk.file_blank .., Disk.file_blank ..⟩) (show few.Pairwise _ by decide)
    (fun _ hx => named_few hx) hlinks 17
  have hagain : { alike with storage := t.world.storage.inner }.Serves .standard :=
    ⟨serves_alike.plain, hsound, serves_alike.reaches⟩
  obtain ⟨u, hu, hfits, hsealed⟩ := hreplay { alike with storage := t.world.storage.inner } hagain
    ⟨smooth_sample.storage, smooth_sample.signs, rfl⟩ (fun _ _ => rfl) hlinks
  have hunbroken := hfits (by decide)
  obtain ⟨path, hplaced, hunsealed⟩ := exists_unsealed ht
  obtain ⟨hn, bs, hbs⟩ := exists_placed (serves_alike.crashing 17) ht hplaced
  have hstands : (u.world.storage.file path).isSome :=
    Option.isSome_iff_exists.mpr ⟨bs, (hagain.undamaged hu).record hn hbs⟩
  exact ⟨t, u, path, ht, hu, hunbroken, hstands, fun h =>
    (hsealed hunbroken path hn hstands).mp h hunsealed⟩

end Outset

end SealedStream
