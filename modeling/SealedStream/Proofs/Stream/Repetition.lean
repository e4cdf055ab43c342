import SealedStream.Proofs.Storage.ChangeLog
import SealedStream.Proofs.Stream.Firsts
import SealedStream.Proofs.Stream.Tidiness
import SealedStream.Proofs.Writer.Beginning

/-!
Running over finished output: the windows of a second run are those of the first, and where nothing
has failed the file of each of them stands. A payload that is too long to be written costs its
window the file in every run, and every run tries again.
-/

namespace SealedStream

open Act

/-! ### The windows of a course -/

namespace Course

variable {c : Course} {clock : PeriodClock} {time : Timestamp} {op : Operation}

/-- A window of this time is to be written. -/
def Marks (c : Course) (time : Timestamp) : Prop :=
  ∃ st ∈ c.stretches, st.kept = true ∧ st.time = time

lemma Marks.step (h : c.Marks time) (clock : PeriodClock) (hop : op ≠ .clear) :
    (c.step clock op).Marks time := by
  obtain ⟨st, hst, hkept, htime⟩ := h
  have hreshapes := reshapes_step c clock op
  rw [Marks]
  generalize (c.step clock op).stretches = ss at hreshapes
  cases hreshapes with
  | same _ => exact ⟨st, hst, hkept, htime⟩
  | @joins o cur _ hcurrent _ =>
    rw [stretches_of_current hcurrent, List.mem_append, List.mem_singleton] at hst
    rcases hst with hst | rfl
    · exact ⟨st, List.mem_append_left _ hst, hkept, htime⟩
    · exact ⟨{ st with objects := st.objects ++ [o] }, List.mem_concat_self, hkept, htime⟩
  | opens _ => exact ⟨st, List.mem_append_left _ hst, hkept, htime⟩
  | drops _ => exact (hop rfl).elim

end Course

variable {σ ω : Type} [Storage σ ω]

lemma Account.marks_of_enters {G : Setting σ ω} {pubs : List Publication} {c : Course}
    {w : Writer ω} {s : Surroundings σ} {op : Operation} {path : Path} (h : Account G pubs c w s)
    (hO : ¬G.orderly) (hne : ∀ st, c.current = some st → st.objects ≠ [])
    (henters : w.Enters s op path) :
    ∃ time, (c.step G.clock op).Marks time ∧
      Naming.recordPath G.config.exportDir time G.config.kind = .ok path := by
  obtain ⟨o, w₁, s₁, rfl, hstopped, hturn, hidle, hcw, hname⟩ := henters
  rw [h.follows.config] at hname
  refine ⟨o.timestamp, ?_, hname⟩
  obtain ⟨more, h₁, -⟩ := h.turnTo o hne (fun hO' => (hO hO').elim) _ _ hturn
  rw [Course.step, Course.add_eq (h.follows.stopped.symm.trans hstopped)]
  have hcurrent := h₁.follows.idle_iff.mp hidle
  have hcw := h₁.follows.completeWindow.symm.trans hcw
  generalize G.clock.period o.timestamp = period at hcurrent hcw
  generalize (c.notice period).leaveFor o.alignment period = d at hcurrent hcw
  rcases Course.stretches_take d o period with ⟨cur, hcur, -⟩ | ⟨-, hs⟩
  · cases hcur.symm.trans hcurrent
  · refine ⟨{ d.opened o period with objects := [o] }, by rw [hs]; simp, ?_⟩
    simp [Course.opened, hcw]

namespace Outset

variable {b : Outset σ ω} {config : Config} {ops : List Operation} {os : List StreamObject}
  {t : Stage σ ω} {initial : Hash}

/-! ### Runs over what stands -/

/-- **Where the file of every window that is to be written stands already**, a run comes to its end
and leaves storage and signer alone. -/
theorem Serves.passes (h : b.Serves config) (hclear : .clear ∉ ops)
    (hstands : ∀ time, (h.course ops).Marks time → (h.exposed False).Stands time b.storage) :
    ∃ u, b.reached config (ops.map .call) = some u ∧ u.writer.isWriting = false ∧
      u.world.storage = b.storage ∧ u.world.asked = [] := by
  induction ops using List.reverseRecOn with
  | nil =>
    obtain ⟨t₀, ht₀, hidle, hstorage, hasked⟩ := h.begins
    exact ⟨t₀, ht₀, by simp [Writer.isWriting, hidle], hstorage, hasked⟩
  | append_singleton ops op ih =>
    have hcourse := h.course_concat ops op
    simp only [List.mem_append, List.mem_singleton, not_or] at hclear
    obtain ⟨u, hu, hclosed, hstorage, hasked⟩ := ih hclear.1 fun time hmarks =>
      hstands time (hcourse ▸ hmarks.step h.plain.clock (Ne.symm hclear.2))
    obtain ⟨pubs, account, -⟩ := account_exposed h False False.elim hu
    rw [Step.calls_map] at account
    have hpresent : ∀ path, u.writer.Enters u.world op path →
        Storage.present (ω := ω) path u.world.storage = true := by
      intro path henters
      obtain ⟨time, hmarks, hname⟩ := account.marks_of_enters id
        (fun _ => (h.grounded _).current_nonempty) henters
      obtain ⟨path', hname', hsome⟩ := hstands time (hcourse ▸ hmarks)
      cases hname.symm.trans hname'
      rw [b.view.present_eq account.records.sound (h.reaches ⟨time, hname⟩).record, hstorage]
      exact hsome
    obtain ⟨r, s, happly, hpasses⟩ := Writer.exists_apply op u.world hclosed hpresent
    refine ⟨⟨r.2, s, u.accepted ++ op.taken r.1⟩, ?_, hpasses.closed,
      hpasses.storage.trans hstorage, hpasses.asked.trans hasked⟩
    rw [List.map_append]
    exact reached_concat hu (Stage.step_call happly)

/-! ### Running twice -/

lemma Serves.over_logged (h : b.Serves config) {steps : List Step}
    (ht : b.reached config steps = some t) (p : Pipeline) (signer : Signer)
    (meanwhile : List (List Intervention)) (coming : List Intervention) :
    (⟨Logged.view b.view, ⟨t.world.storage, []⟩, p, signer, meanwhile, coming⟩ :
      Outset (Logged σ) ω).Serves config := by
  obtain ⟨pubs, account, -⟩ := account_exposed h False False.elim ht
  exact ⟨h.plain, account.records.sound, fun hn => (h.reaches hn).of_imp id⟩

/-- **A restart over finished output changes nothing.** Objects with resolved links, with times that
have names and with payloads that are not too long to be written, in whatever order, are handed to a
new writer and the writer is closed, while neither storage nor signer fails and no unfinished file
is left over at the start. A second run of the same calls over the storage that is left, whatever
its signer and its links and tokens, comes to its end, asks for no file to be made, moved or taken
away, leaves all files as they are, and does not call the signer. -/
theorem restart_changes_nothing (h : b.Serves config) (hs : b.Smooth config) (initial : Hash)
    (hnamed : ∀ x ∈ os, ∃ text, x.timestamp.toIso = .ok text)
    (hresolved : ∀ x ∈ os, ∃ k, b.pipeline.Holds x.link k) (hfits : ∀ x ∈ os, x.item.Fits) :
    ∃ t, b.reached config ((Operation.batch initial os).map .call) = some t ∧ t.Unbroken ∧
      ∀ d : Outset (Logged σ) ω, d.view = Logged.view b.view →
        d.storage = ⟨t.world.storage, []⟩ →
        ∃ u, d.reached config ((Operation.batch initial os).map .call) = some u ∧
          u.world.storage = ⟨t.world.storage, []⟩ ∧ u.world.asked = [] := by
  have hops : b.Provides (Operation.batch initial os) := provides_batch hnamed hresolved
  have hstarts : Operation.startsFrom initial
      (Step.calls ((Operation.batch initial os).map .call)) = true := by
    rw [Step.calls_map]
    exact startsFrom_batch initial os
  obtain ⟨t, ht⟩ := exists_exposed h (fun o ho => hops.resolved (by simpa using ho)) hstarts
  have hthorough := (h.thorough_run hs hops (by simp [Operation.batch]) (by simp [Operation.batch])
    (Step.seeded_of_startsFrom hstarts) ht).resolve_right
      fun ⟨_, o, ho, hunfit⟩ => hunfit (hfits o (mem_batch ho))
  refine ⟨t, ht, hthorough.token, fun d hview hstorage => ?_⟩
  obtain ⟨view, storage, p, signer, meanwhile, coming⟩ := d
  obtain rfl : view = Logged.view b.view := hview
  obtain rfl : storage = ⟨t.world.storage, []⟩ := hstorage
  have hserves := h.over_logged ht p signer meanwhile coming
  have hstands : ∀ time, (hserves.course (Operation.batch initial os)).Marks time →
      (hserves.exposed False).Stands time ⟨t.world.storage, []⟩ := by
    rintro time ⟨st, hst, hkept, rfl⟩
    rw [hserves.stretches_batch] at hst
    exact hthorough.past hst hkept
  obtain ⟨u, hu, -, hsame, hasked⟩ := hserves.passes (by simp [Operation.batch]) hstands
  exact ⟨u, hu, hsame, hasked⟩

/-- Three objects, of which the last comes back to the time of the first. -/
def recurring : List StreamObject :=
  [⟨.of [1] [2], ⟨1, 0⟩, ⟨0⟩, .unaligned⟩, ⟨.of [3] [], ⟨5, 0⟩, ⟨1⟩, .block 7⟩,
    ⟨.of [] [4], ⟨1, 0⟩, ⟨2⟩, .unaligned⟩]

/-- A second run over a disk with a log, with a signer that fails. -/
def repeating (os : List StreamObject) (disk : Disk) : Outset (Logged Disk) DiskOutput where
  view := Logged.view (chained os).view
  storage := ⟨disk, []⟩
  pipeline := (chained os).pipeline
  signer := refused.signer
  meanwhile := []
  coming := []

theorem restart_changes_nothing_recurring :
    ∃ (t : Stage Disk DiskOutput) (u : Stage (Logged Disk) DiskOutput),
      (chained recurring).reached .standard ((Operation.batch .zero recurring).map .call) = some t ∧
      t.Unbroken ∧
      (repeating recurring t.world.storage).reached .standard
        ((Operation.batch .zero recurring).map .call) = some u ∧
      u.world.storage = ⟨t.world.storage, []⟩ ∧ u.world.asked = [] := by
  have hslot : ∀ x ∈ recurring, x.link.slot < recurring.length := by decide
  obtain ⟨t, ht, hunbroken, hagain⟩ := restart_changes_nothing (serves_chained recurring)
    (smooth_chained recurring) .zero (fun _ hx => named_of_isOk (by decide) hx)
    (fun x hx => ⟨_, hslot x hx, rfl⟩) (by decide)
  obtain ⟨u, hu, hsame⟩ := hagain (repeating recurring t.world.storage) rfl rfl
  exact ⟨t, u, ht, hunbroken, hu, hsame⟩

/-! ### Payloads that are too long -/

lemma Serves.untouched_of_unfit (h : b.Serves config) {steps : List Step}
    (ht : b.reached config steps = some t) (hunfit : ∀ x ∈ t.accepted, ¬x.item.Fits) {path : Path}
    (hn : config.Names path) :
    b.view.file t.world.storage path = b.view.file b.storage path := by
  obtain ⟨pubs, account, haccepted⟩ := account_exposed h False False.elim ht
  refine account.records.untouched hn fun hmem => ?_
  obtain ⟨x, hx, -⟩ := List.mem_map.mp hmem
  obtain ⟨call, hvalid⟩ := account.records.published.valid hx
  obtain ⟨o, ho⟩ := List.exists_mem_of_ne_nil _ hvalid.nonempty
  refine hunfit o ?_ (hvalid.fits o ho)
  rw [haccepted]
  exact List.mem_flatMap.mpr ⟨_, account.stretch_mem hx, ho⟩

lemma Serves.seeded (h : b.Serves config) (initial : Hash) :
    ∃ t₁, b.reached config [.call (.setRunningHash initial)] = some t₁ ∧
      t₁.writer.config = config ∧ t₁.writer.phase = .idle ∧ t₁.writer.stopped = false ∧
      t₁.writer.completeWindow = config.completeWindow ∧ t₁.world.storage = b.storage ∧
      t₁.world.meanwhile = b.meanwhile ∧
      t₁.world.pipeline.read t₁.writer.runningHash t₁.writer.token = some (.ok initial) := by
  have hstart := (h.exposed False).start_eq b.world
  rw [reached, show Stage.start config b.world = _ from hstart]
  refine ⟨_, rfl, rfl, rfl, rfl, rfl, rfl, rfl, Pipeline.read_resolved ?_ ?_⟩
  · exact (Pipeline.holds_newLink _ initial).2
  · exact Pipeline.isCancelled_newToken b.pipeline

/-- **A window that begins with a payload that is too long** has a file created for it in every run
that does not find one. -/
lemma Serves.logs_unfit {d : Outset (Logged σ) ω} (h : d.Serves config)
    (hpolicy : config.completeWindow = false) (hcalm : d.meanwhile = []) (initial : Hash)
    {o : StreamObject} (hunfit : ¬o.item.Fits) {path : Path}
    (hname : Naming.recordPath config.exportDir o.timestamp config.kind = .ok path)
    (hfree : d.view.file d.storage path = none) :
    ∃ u, d.reached config ((Operation.batch initial [o]).map .call) = some u ∧
      u.world.storage.log ≠ [] := by
  obtain ⟨t₁, ht₁, hconfig, hidle, hrunning, hoff, hstorage, hmeanwhile, hread⟩ := h.seeded initial
  have hfree₁ : Storage.present (ω := ω) path t₁.world.storage = false := by
    rw [hstorage, d.view.present_eq h.sound (h.reaches ⟨_, hname⟩).record, hfree]
    rfl
  have hread₁ : t₁.world.overtaken.pipeline.read t₁.writer.runningHash t₁.writer.token =
      some (.ok initial) := by
    rw [Surroundings.overtaken, hmeanwhile, hcalm]
    exact hread
  obtain ⟨_, s₂, hadd, w₂, rfl, hclosed, hlog⟩ := Writer.yields_add_unfit hrunning hidle
    (hoff.trans hpolicy) hunfit (hconfig.symm ▸ hname) hfree₁ hread₁
  have hclose : (w₂.close : Act (Logged σ) _) s₂ =
      some ({ w₂ with phase := .idle, stopped := true }, s₂.told .stopped) := by
    rw [Writer.close, Writer.closeAndSign_of_not_writing hclosed]
    rfl
  have happly : w₂.apply .close s₂ =
      some ((.done, { w₂ with phase := .idle, stopped := true }), s₂.told .stopped) :=
    bind_eq_some.mpr ⟨_, _, hclose, rfl⟩
  exact ⟨_, reached_concat (reached_concat ht₁ (Stage.step_add hadd)) (Stage.step_call happly),
    hlog⟩

def overlong : StreamObject := ⟨.oversize, ⟨1, 0⟩, ⟨0⟩, .unaligned⟩

/-- **Without a bound on payloads** a restart does change something: on a disk that does not fail no
file comes of a payload that is too long, and the second run asks for one to be made again. -/
theorem restart_tries_again_overlong :
    (chained [overlong]).Serves .standard ∧ (chained [overlong]).Smooth .standard ∧
    (∀ x ∈ [overlong], ∃ text, x.timestamp.toIso = .ok text) ∧
    (∀ x ∈ [overlong], ∃ k, (chained [overlong]).pipeline.Holds x.link k) ∧
    ∃ (t : Stage Disk DiskOutput) (u : Stage (Logged Disk) DiskOutput),
      (chained [overlong]).reached .standard ((Operation.batch .zero [overlong]).map .call) =
        some t ∧
      (repeating [overlong] t.world.storage).reached .standard
        ((Operation.batch .zero [overlong]).map .call) = some u ∧
      u.world.storage.log ≠ [] := by
  have hserves := serves_chained [overlong]
  have hnamed : ∀ x ∈ [overlong], ∃ text, x.timestamp.toIso = .ok text :=
    List.forall_mem_singleton.mpr (exists_ok_of_isOk (by decide))
  have hresolved : ∀ x ∈ [overlong], ∃ k, (chained [overlong]).pipeline.Holds x.link k :=
    List.forall_mem_singleton.mpr ⟨_, Nat.zero_lt_one, rfl⟩
  refine ⟨hserves, smooth_chained _, hnamed, hresolved, ?_⟩
  have hstarts : Operation.startsFrom .zero
      (Step.calls ((Operation.batch .zero [overlong]).map .call)) = true := by
    rw [Step.calls_map]
    exact startsFrom_batch .zero [overlong]
  obtain ⟨t, ht⟩ := exists_exposed hserves (fun o ho =>
    (provides_batch hnamed hresolved).resolved (by simpa using ho)) hstarts
  obtain ⟨text, htext⟩ := hnamed overlong List.mem_cons_self
  obtain ⟨path, hname⟩ :=
    Naming.recordPath_of_toIso htext Config.standard.exportDir Config.standard.kind
  -- the first run leaves nothing behind, so the second one finds the path free
  have hfree : (chained [overlong]).view.file t.world.storage path = none := by
    refine (hserves.untouched_of_unfit ht ?_ ⟨_, hname⟩).trans (free_chained [overlong] path)
    obtain ⟨pubs, account, haccepted⟩ := account_exposed hserves False False.elim ht
    rw [haccepted, Step.calls_map, Course.objects, hserves.stretches_batch, hserves.objects_batch]
    exact List.forall_mem_singleton.mpr Item.not_fits_oversize
  obtain ⟨u, hu, hlog⟩ := (hserves.over_logged ht (chained [overlong]).pipeline refused.signer []
    []).logs_unfit rfl rfl .zero Item.not_fits_oversize hname hfree
  exact ⟨t, u, ht, hu, hlog⟩

end Outset

end SealedStream
