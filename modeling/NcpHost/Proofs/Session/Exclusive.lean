import NcpHost.Proofs.Session.Causality
import NcpHost.Proofs.Session.Standing

/-! Blocking requests exclude each other. Each stands in line for the blocking lock from its issue to its
end, and only the first in line has anything written, which is the one with the oldest listener. So a
command that is offered after a request was sent and before that has its answer finds the listener of
this request first, whatever the acknowledgements do. -/

namespace NcpHost.Session

namespace Request

variable {s s₁ s₂ : Session} {acts : Nat → Act} {r r' : s.Request acts} {m : Nat}

/-- A blocking request is in line for the blocking lock, or it is over and was reported after all that
it had written. -/
inductive InLine (r : s.Request acts) (s' : Session) : Prop where
  | asks : s'.exchange? r.id ≠ none → r.id ∈ s'.blockingLock.line → InLine r s'
  | ended {t : Nat} {o : Outcome} : r.id < s'.nextTask → s'.task? r.id = none →
    s'.log[t]? = some (.finished r.id o) →
    (∀ p line bytes, s'.log[p]? = some (.sent r.id line bytes) → p < t) → InLine r s'

theorem InLine.step (h : r.InLine s₁) (hk : r.Kept) (hr₁ : s₁.Regular) (hm : r.issued ≤ m)
    (hs : Step (acts m) s₁ s₂) : r.InLine s₂ := by
  cases h with
  | asks hasks hline =>
    obtain ⟨e, he⟩ := Option.ne_none_iff_exists'.mp hasks
    have hgoes : s₂.exchange? r.id = some e → r.InLine s₂ := fun he' =>
      .asks (he' ▸ nofun) (hs.mem_line hr₁.lined hline
        fun hn => absurd ((exchange?_of_gone hn).symm.trans he') nofun)
    rcases hr₁.orderly.listening.touch hs with ⟨line, c, -, rfl⟩ | htouch
    · exact hgoes he
    · cases htouch r.id e he with
      | spares he' | clears _ _ he' | robs _ he' => exact hgoes he'
      | aborts hact => exact absurd hact (hk.not_aborted hm).1
      | ends _ _ hgone _ hlog =>
        obtain ⟨line, writes, hlog⟩ := hlog
        have hknown : r.id < s₁.nextTask := hr₁.orderly.listening.known r.id
          fun hn => hasks (exchange?_of_gone hn)
        refine .ended (Nat.lt_of_lt_of_le hknown hs.nextTask_le) hgone
          (hlog ▸ List.getElem?_concat_length) fun p line' bytes hp => ?_
        -- the end of the request is the last thing on record
        have hlt := lt_length_of_getElem? hp
        rw [hlog, List.length_append] at hlt
        refine Nat.lt_of_le_of_ne (Nat.le_of_lt_succ hlt) fun heq => ?_
        rw [hlog, heq, List.getElem?_concat_length] at hp
        exact absurd hp nofun
  | @ended t o hknown hgone hend hall =>
    obtain ⟨hknown₂, hgone₂⟩ := hs.gone hknown hgone
    obtain ⟨new, hlog, hnew⟩ := hs.writesDuly
    refine .ended hknown₂ hgone₂ (getElem?_of_longer (hlog ▸ List.prefix_append _ _) hend)
      fun p line bytes hp => ?_
    by_cases hlt : p < s₁.log.length
    · rw [hlog, List.getElem?_append_left hlt] at hp
      exact hall p line bytes hp
    · -- whoever is gone writes nothing
      rw [hlog, List.getElem?_append_right (Nat.le_of_not_lt hlt)] at hp
      have hseat := (hnew r.id line bytes (List.mem_of_getElem? hp)).seat
      exact absurd ((seat?_of_gone hgone).symm.trans hseat) nofun

theorem InLine.steps (h : r.InLine s₁) (hk : r.Kept) (hr₁ : s₁.Regular) (hm : r.issued ≤ m)
    (hs : Steps (acts m) s₁ s₂) : r.InLine s₂ := by
  induction hs with
  | refl => exact h
  | tail hsteps hstep ih => exact ih.step hk (hr₁.steps hsteps) hm hstep

theorem inLine_first (hb : r.command.isBlocking = true) (hr : s.Regular) :
    ∃ s₁, Move r.id (s.trail acts r.issued) s₁ ∧ s.Within acts r.issued s₁ ∧ r.InLine s₁
      ∧ s₁.log = (s.trail acts r.issued).log := by
  obtain ⟨s₁, t, e, hmove, hsteps, -, hlog, ht, he, -, -, -, hlock⟩ := r.issue.first
  have hasks : s₁.exchange? r.id ≠ none := (exchange?_of_task? ht).trans he ▸ nofun
  have hline : r.id ∈ s₁.blockingLock.line := by
    rw [hlock hb]
    exact (FairLock.mem_line_join (hr.trail acts r.issued).lined.fair).mpr (Or.inr rfl)
  exact ⟨s₁, hmove, ⟨.single (.move r.issue.turn hmove), hsteps⟩, .asks hasks hline, hlog⟩

theorem Kept.inLine (hk : r.Kept) (hb : r.command.isBlocking = true) (hr : s.Regular)
    (hw : s.Within acts m s₁) (hm : r.issued < m) : r.InLine s₁ := by
  obtain ⟨s₀, -, hw₀, hfirst, -⟩ := inLine_first hb hr
  have htrail := trail_of_steps hw₀ hfirst fun n hn s₁ s₂ hw₁ _ hs h =>
    h.step hk (hr.within hw₁) hn hs
  exact (htrail m hm).steps hk (hr.trail acts m) (Nat.le_of_lt hm) hw.1

theorem InLine.holds (h : r.InLine s₁) (hr₁ : s₁.Regular) (hpresent : s₁.task? r.id ≠ none)
    {p : Nat} {line : LineId} {bytes : List UInt8}
    (hsent : s₁.log[p]? = some (.sent r.id line bytes)) :
    s₁.blockingLock.holder = some r.id := by
  cases h with
  | ended _ hgone => exact absurd hgone hpresent
  | asks _ hline =>
    refine (hr₁.lined.waits r.id hline).resolve_right ?_
    rintro ⟨e, frames, hg⟩
    exact absurd ((hr₁.begun r.id line bytes (List.mem_of_getElem? hsent)).2 _ hg) nofun

theorem unsent (r : s.Request acts) (hr : s.Regular) {n p : Nat} (hn : n ≤ r.issued)
    {line : LineId} {bytes : List UInt8} :
    (s.trail acts n).log[p]? ≠ some (.sent r.id line bytes) := by
  intro hp
  obtain ⟨timeout, hfresh⟩ := r.issue.fresh
  have hsent := getElem?_of_longer (s.log_trail acts hn) hp
  have hbegun := (hr.trail acts r.issued).begun r.id line bytes (List.mem_of_getElem? hsent)
  exact absurd (hbegun.2 _ hfresh) nofun

/-- Between anything that the first one of two requests has written and anything that the second one
wrote after that, the first one was over. -/
def Apart (r r' : s.Request acts) (s' : Session) : Prop :=
  ∀ (p q : Nat) line line' bytes bytes', p < q → s'.log[p]? = some (.sent r.id line bytes) →
    s'.log[q]? = some (.sent r'.id line' bytes') →
    ∃ t o, p < t ∧ t < q ∧ s'.log[t]? = some (.finished r.id o)

theorem Apart.step (h : r.Apart r' s₁) (hr₁ : s₁.Regular) (hline : r.InLine s₁)
    (hline' : r'.InLine s₁) (hne : r.id ≠ r'.id) {act : Act} (hs : Step act s₁ s₂) :
    r.Apart r' s₂ := by
  intro p q line line' bytes bytes' hpq hp hq
  obtain ⟨new, hlog, hnew⟩ := hs.writesDuly
  have hold : ∀ {n e}, s₁.log[n]? = some e → s₂.log[n]? = some e := fun he =>
    getElem?_of_longer (hlog ▸ List.prefix_append _ _) he
  have hsplit : ∀ {n e}, s₂.log[n]? = some e → s₁.log[n]? = some e
      ∨ s₁.log.length ≤ n ∧ e ∈ new := by
    intro n e he
    rw [hlog] at he
    by_cases hlt : n < s₁.log.length
    · exact Or.inl ((List.getElem?_append_left hlt).symm.trans he)
    · rw [List.getElem?_append_right (Nat.le_of_not_lt hlt)] at he
      exact Or.inr ⟨Nat.le_of_not_lt hlt, List.mem_of_getElem? he⟩
  rcases hsplit hq with hq | ⟨hlast, hq⟩
  · rw [hlog, List.getElem?_append_left (Nat.lt_trans hpq (lt_length_of_getElem? hq))] at hp
    obtain ⟨t, o, hpt, htq, ht⟩ := h p q line line' bytes bytes' hpq hp hq
    exact ⟨t, o, hpt, htq, hold ht⟩
  · -- the second one writes in this step; it holds the lock, so that the first one is over
    obtain ⟨hact', hseat', -⟩ := hnew r'.id line' bytes' hq
    have hp : s₁.log[p]? = some (.sent r.id line bytes) := by
      rcases hsplit hp with hp | ⟨-, hp⟩
      · exact hp
      · have hact := (hnew r.id line bytes hp).turn
        exact absurd (by simpa using hact.symm.trans hact') hne
    obtain ⟨t', ht', hsits⟩ := Option.bind_eq_some_iff.mp hseat'
    have hholder' : s₁.blockingLock.holder = some r'.id := by
      cases hline' with
      | ended _ hgone => exact absurd (hgone.symm.trans ht') nofun
      | asks _ hin =>
        exact (hr₁.lined.waits r'.id hin).resolve_right (not_gated_of_seat? ht' hsits)
    cases hline with
    | asks hasks hin =>
      have hholder := InLine.holds (.asks hasks hin) hr₁
        (fun hn => hasks (exchange?_of_gone hn)) hp
      exact absurd (Option.some.inj (hholder.symm.trans hholder')) hne
    | @ended t o _ _ hend hall =>
      exact ⟨t, o, hall p line bytes hp, Nat.lt_of_lt_of_le (lt_length_of_getElem? hend) hlast,
        hold hend⟩

theorem Kept.apart (hk : r.Kept) (hk' : r'.Kept) (hb : r.command.isBlocking = true)
    (hb' : r'.command.isBlocking = true) (hr : s.Regular) (hne : r.id ≠ r'.id) :
    ∃ n, ∀ m > n, r.Apart r' (s.trail acts m) := by
  have hstart : ∃ n s₀, s.Within acts n s₀ ∧ r.issued ≤ n ∧ r'.issued ≤ n ∧ r.InLine s₀
      ∧ r'.InLine s₀ ∧ r.Apart r' s₀ := by
    rcases Nat.lt_trichotomy r.issued r'.issued with hlt | heq | hlt
    · obtain ⟨s₀, -, hw, hline', hlog⟩ := inLine_first hb' hr
      refine ⟨r'.issued, s₀, hw, Nat.le_of_lt hlt, Nat.le_refl _, hk.inLine hb hr hw hlt, hline', ?_⟩
      exact fun _ _ _ _ _ _ _ _ hq => absurd (hlog ▸ hq) (r'.unsent hr (Nat.le_refl _))
    · have hturn := r.issue.turn
      rw [heq, r'.issue.turn] at hturn
      exact absurd (by simpa using hturn.symm) hne
    · obtain ⟨s₀, -, hw, hline, hlog⟩ := inLine_first hb hr
      refine ⟨r.issued, s₀, hw, Nat.le_refl _, Nat.le_of_lt hlt, hline, hk'.inLine hb' hr hw hlt, ?_⟩
      exact fun _ _ _ _ _ _ _ hp => absurd (hlog ▸ hp) (r.unsent hr (Nat.le_refl _))
  obtain ⟨n, s₀, hw, hn, hn', hline, hline', hapart⟩ := hstart
  refine ⟨n, fun m hm => ?_⟩
  refine (trail_of_steps (P := fun s' => r.InLine s' ∧ r'.InLine s' ∧ r.Apart r' s') hw
    ⟨hline, hline', hapart⟩ (fun k hkn s₁ s₂ hw₁ _ hs h => ?_) m hm).2.2
  obtain ⟨h, h', hapart⟩ := h
  have hr₁ := hr.within hw₁
  exact ⟨h.step hk hr₁ (Nat.le_trans hn hkn) hs, h'.step hk' hr₁ (Nat.le_trans hn' hkn) hs,
    hapart.step hr₁ h h' hne hs⟩

/-- Between anything that one blocking request has written and anything that another one writes after
that, the first one is over. -/
theorem Kept.written_apart (hk : r.Kept) (hk' : r'.Kept) (hb : r.command.isBlocking = true)
    (hb' : r'.command.isBlocking = true) (hr : s.Regular) (hne : r.id ≠ r'.id) {p q : Nat}
    {line line' : LineId} {bytes bytes' : List UInt8} (hpq : p < q)
    (hp : s.Logs acts p (.sent r.id line bytes)) (hq : s.Logs acts q (.sent r'.id line' bytes')) :
    ∃ t o, p < t ∧ t < q ∧ s.Logs acts t (.finished r.id o) := by
  obtain ⟨n, hapart⟩ := hk.apart hk' hb hb' hr hne
  obtain ⟨m, hq⟩ := hq
  have hlate := getElem?_of_longer (s.log_trail acts (Nat.le_max_left m (n + 1))) hq
  have hat := hp.getElem? (s.within_start acts (max m (n + 1)))
    (Nat.lt_trans hpq (lt_length_of_getElem? hlate))
  obtain ⟨t, o, hpt, htq, ht⟩ :=
    hapart _ (Nat.lt_of_succ_le (Nat.le_max_right m (n + 1))) p q _ _ _ _ hpq hat hlate
  exact ⟨t, o, hpt, htq, _, ht⟩

theorem listener_lt (hr : s.Regular) (hlt : r.issued < r'.issued) : r.listener < r'.listener := by
  have hafter : ∀ n > r.issued, r.listener < (s.trail acts n).registry.nextId := by
    intro n hn
    induction n, hn using Nat.le_induction with
    | base =>
      obtain ⟨s₁, _, _, hmove, hsteps, hregistry, -⟩ := r.issue.first
      have hreg := hr.trail acts r.issued
      have hnext := hsteps.nextId_le (hreg.orderly.step (.move r.issue.turn hmove))
      rw [hregistry] at hnext
      exact hnext
    | succ n _ ih =>
      exact Nat.lt_of_lt_of_le ih ((s.trail_steps acts n).nextId_le (hr.trail acts n).orderly)
  exact hafter r'.issued hlt

end Request

section

variable {s : Session} {acts : Nat → Act} {ι : Type} {r : ι → s.Request acts} {place : ι → Nat}
  {reply : ι → Command}

/-- Each of these requests is answered once, after something of it was written and before its time is
over. -/
structure Answers (r : ι → s.Request acts) (place : ι → Nat) (reply : ι → Command) : Prop where
  offered : ∀ i, s.Logs acts (place i) (.dispatched (reply i))
  header : ∀ i, (reply i).header = (r i).pattern.header
  sent : ∀ i, ∃ f < place i, ∃ line bytes, s.Logs acts f (.sent (r i).id line bytes)
  timely : ∀ i, ∀ q < place i, ¬s.Logs acts q (.finished (r i).id (.failed .timeout))
  only : ∀ i p d, (r i).since ≤ p → s.Logs acts p (.dispatched d) →
    d.header = (r i).pattern.header → ∃ j, place j = p

theorem Answers.replies (h : Answers r place reply) (hr : s.Regular) : Replies r place reply := by
  refine ⟨h.offered, h.header, fun i => ?_, h.timely⟩
  obtain ⟨f, hf, line, bytes, hsent⟩ := h.sent i
  refine Nat.le_trans (Nat.le_of_not_lt fun hlt => ?_) (Nat.le_of_lt hf)
  exact (r i).unsent hr (Nat.le_refl _) (hsent.getElem? (s.within_start acts _) hlt)

theorem Answers.begun (h : Answers r place reply) (hr : s.Regular) {m : Nat} {line : LineId}
    {s₁ : Session} (hact : acts m = .turn (.reader line)) (hw : s.Within acts m s₁) {j : ι}
    (hplace : s₁.log.length = place j) : (r j).issued < m
      ∧ ∃ (f : Nat) (line : LineId) (bytes : List UInt8),
        s₁.log[f]? = some (.sent (r j).id line bytes) := by
  obtain ⟨f, hf, line, bytes, hsent⟩ := h.sent j
  have hat := hsent.getElem? hw (hplace ▸ hf)
  refine ⟨Nat.lt_of_not_le fun hle => ?_, f, line, bytes, hat⟩
  have hlt : m + 1 ≤ (r j).issued := by
    refine Nat.lt_of_le_of_ne hle ?_
    rintro rfl
    exact absurd (hact.symm.trans (r j).issue.turn) nofun
  exact (r j).unsent hr hlt (getElem?_of_longer hw.log hat)

/-- The answer to a request finds no listener before that of the request: the request holds the lock,
and whoever is in line behind it has a younger listener. -/
theorem Answers.first (h : Answers r place reply) (hr : s.Regular)
    (hblocking : ∀ i, (r i).command.isBlocking = true) (hkept : ∀ i, (r i).Kept)
    (hamong : ∀ i, (r i).Among fun k => ∃ j, k = (r j).listener) {m : Nat} {line : LineId}
    {s₁ : Session} (hact : acts m = .turn (.reader line)) (hw : s.Within acts m s₁)
    (hstands : ∀ j, (r j).issued < m → (r j).Stands (place j) (reply j) s₁) {j : ι}
    (hplace : s₁.log.length = place j) :
    ∀ k ∈ s₁.registry.bucket (reply j).header, k < (r j).listener →
      ¬s₁.registry.Awaits (reply j) k := by
  intro k hk hlt hawaits
  have hr₁ := hr.within hw
  obtain ⟨hj, f, line', bytes, hsent⟩ := h.begun hr hact hw hplace
  obtain ⟨e, hu⟩ : ∃ e, (r j).Underway e s₁ := by
    cases hstands j hj with
    | waits hu | has hu => exact ⟨_, hu⟩
    | returned hreturned => exact absurd hreturned.late (hplace ▸ Nat.lt_irrefl _)
  -- something of it was written, so that it has the blocking lock
  have hholder :=
    ((hkept j).inLine (hblocking j) hr hw hj).holds hr₁ hu.present hsent
  obtain ⟨i, rfl⟩ := (hamong j).awaits hr hact hw hj hu.present (h.header j) hk hawaits
  -- an older listener means an earlier issue, and then the holder would be the older one
  have hi : (r i).issued < (r j).issued := by
    rcases Nat.lt_trichotomy (r i).issued (r j).issued with hlt' | heq | hlt'
    · exact hlt'
    · have hsame : (r i).listener = (r j).listener := by
        rw [Request.listener, heq, Request.listener]
      exact absurd hlt (hsame ▸ Nat.lt_irrefl _)
    · exact absurd hlt (Nat.lt_asymm (Request.listener_lt hr hlt'))
  obtain ⟨l, hl, -⟩ := hawaits
  obtain ⟨e', hu', -⟩ := (hstands i (Nat.lt_trans hi hj)).underway hl
  have hin : (r i).id ∈ s₁.blockingLock.line := by
    cases (hkept i).inLine (hblocking i) hr hw (Nat.lt_trans hi hj) with
    | asks _ hin => exact hin
    | ended _ hgone => exact absurd hgone hu'.present
  have hne : (r i).id ≠ (r j).id := by
    intro heq
    obtain rfl := Option.some.inj (hu'.asks.symm.trans (heq ▸ hu.asks))
    exact absurd hlt (hu'.listener ▸ hu.listener ▸ Nat.lt_irrefl _)
  have holder := hr₁.lined.older_of_holder hholder hin hne e e' hu.asks hu'.asks
  rw [hu.listener, hu'.listener] at holder
  exact Nat.lt_asymm hlt holder

theorem Answers.takeTurns (h : Answers r place reply) (hr : s.Regular)
    (hids : Function.Injective fun i => (r i).id)
    (hblocking : ∀ i, (r i).command.isBlocking = true) (hkept : ∀ i, (r i).Kept)
    (hamong : ∀ i, (r i).Among fun k => ∃ j, k = (r j).listener) : TakeTurns r place reply := by
  intro m line s₁ c hact hw₁ hw₂ hstands i hi hlistener
  have hl := (hr.within hw₁).orderly.listening
  refine ⟨fun hlast => h.first hr hblocking hkept hamong hact hw₁ hstands hlast, fun hlt => ?_⟩
  by_cases hheader : c.header = (r i).pattern.header
  · -- it is the answer to another request
    have hlogs : s.Logs acts s₁.log.length (.dispatched c) := hw₂.logs List.getElem?_concat_length
    have hsince : (r i).since ≤ s₁.log.length :=
      Nat.le_trans (s.log_trail acts (Nat.le_of_lt hi)).length_le (steps_log hw₁.1).length_le
    obtain ⟨j, hj⟩ := h.only i _ c hsince hlogs hheader
    obtain rfl := Event.dispatched.inj (hlogs.unique (hj ▸ h.offered j))
    have hissued := (h.begun hr hact hw₁ hj.symm).1
    obtain ⟨e, hu, hlistener', hslot⟩ : ∃ e, (r j).Underway e s₁
        ∧ s₁.registry.listener? (r j).listener = some ⟨[(r j).pattern], .oneShot⟩
        ∧ s₁.registry.slot? (r j).listener = some .fresh := by
      cases hstands j hissued with
      | waits hu hlistener hslot => exact ⟨_, hu, hlistener, hslot⟩
      | has _ _ _ _ hlate => exact absurd hlate (hj ▸ Nat.lt_irrefl _)
      | returned hreturned => exact absurd hreturned.late (hj ▸ Nat.lt_irrefl _)
    obtain ⟨e', hu', -⟩ := (hstands i hi).underway hlistener
    have hne : (r i).listener ≠ (r j).listener := by
      intro heq
      rw [← hu'.listener, ← hu.listener] at heq
      obtain rfl := hids (hl.own (r i).id (r j).id e' e hu'.asks hu.asks heq)
      exact absurd hlt (hj ▸ Nat.lt_irrefl _)
    have hmem : (reply j).header ∈ (⟨[(r j).pattern], .oneShot⟩ : Listener Deed).headers :=
      (Listener.mem_headers _).mpr ⟨_, List.mem_singleton_self _, (h.header j).symm⟩
    have hlive : (s₁.registry.slot (r j).listener).live = true := by
      rw [Registry.slot_of_slot? hslot]
      rfl
    exact (hl.sound.dispatch_first hlistener' rfl ((r j).issue.hears (h.header j)) hmem hlive
      (h.first hr hblocking hkept hamong hact hw₁ hstands hj.symm)).2.2 _ hne
  · exact Request.same_of_header hl.sound hlistener hheader

end

/-- Blocking requests whose links stay up, that are not given up and that have the only one-shot
listeners for their responses: between anything that one has written and its end nothing of another one
is written, and if each is answered once, after it was sent and in time, each returns its own answer. -/
theorem blocking_requests_answered (config : Config) (catalog : Catalog) (deviceOpens : Bool)
    (acts : Nat → Act) :
    let s := Session.new config catalog deviceOpens
    ∀ {ι : Type} (r : ι → s.Request acts), Function.Injective (fun i => (r i).id) →
      (∀ i, (r i).command.isBlocking = true) → (∀ i, (r i).Kept) →
      (∀ i, (r i).Among fun k => ∃ j, k = (r j).listener) →
      (∀ i j p q line line' bytes bytes', i ≠ j → p < q →
        s.Logs acts p (.sent (r i).id line bytes) → s.Logs acts q (.sent (r j).id line' bytes') →
        ∃ t o, p < t ∧ t < q ∧ s.Logs acts t (.finished (r i).id o))
      ∧ ∀ place reply, Answers r place reply → ∀ i,
        (∀ q o, s.Logs acts q (.finished (r i).id o) → o = .response (reply i))
          ∧ (s.Fair acts → ∃ q, s.Logs acts q (.finished (r i).id (.response (reply i)))) := by
  intro s ι r hids hblocking hkept hamong
  have hr : s.Regular := regular_new config catalog deviceOpens
  refine ⟨fun i j p q line line' bytes bytes' hij hpq hp hq => ?_, fun place reply h i => ?_⟩
  · exact (hkept i).written_apart (hkept j) (hblocking i) (hblocking j) hr
      (fun heq => hij (hids heq)) hpq hp hq
  · exact (h.replies hr).returns hr (fun _ => rfl) hkept hids
      (h.takeTurns hr hids hblocking hkept hamong) i

/-- Two blocking requests: the answer to the first one arrives while the second one waits behind it, and
none of their fragments is acknowledged. -/
theorem blocking_requests_answered_unacknowledged :
    let reply : Definition := ⟨"Tell", .of .response 0x77, [⟨"N", .u8, false⟩], false, none⟩
    let request : Act :=
      .start (.request ⟨⟨"Ask", .of .request 0x77, [], true, some reply⟩, [], false⟩ 5000)
    let answer := fun n => ((Frame.single (.ofHeader reply.header [n])).stamp 1).encode
    let s := Session.new (.forDevice "tty") (.insert .empty reply) true
    let acts := thenRest [.attach, request, request, .turn (.task 0), .turn (.task 1),
      .arrive 1 (answer 7), .turn (.reader 1), .elapse 1000, .turn (.task 0), .turn (.task 1),
      .arrive 1 (answer 8), .turn (.reader 1), .elapse 2000, .turn (.task 1)]
    ∃ (r : Bool → s.Request acts) (place : Bool → Nat) (reply : Bool → Command),
      Function.Injective (fun i => (r i).id) ∧ (∀ i, (r i).command.isBlocking = true)
        ∧ (∀ i, (r i).Kept) ∧ (∀ i, (r i).Among fun k => ∃ j, k = (r j).listener)
        ∧ Answers r place reply ∧ s.Fair acts
        ∧ ∀ i, ∃ q, s.Logs acts q (.finished (r i).id (.response (reply i))) := by
  intro reply request answer s acts
  let moves : List Act := [.attach, request, request, .turn (.task 0), .turn (.task 1),
    .arrive 1 (answer 7), .turn (.reader 1), .elapse 1000, .turn (.task 0), .turn (.task 1),
    .arrive 1 (answer 8), .turn (.reader 1), .elapse 2000, .turn (.task 1)]
  have htasks : (s.run moves).tasks.map (·.1) = [] := by decide +kernel
  have hdone : (s.run moves).tasks = [] := List.map_eq_nil_iff.mp htasks
  have hissue : Issue (s.trail acts 3) (acts 3) 0
      ⟨⟨"Ask", .of .request 0x77, [], true, some reply⟩, [], false⟩ (.anyOf reply) :=
    ⟨rfl, ⟨5000, rfl⟩, ⟨1, .ofHeader (.of .request 0x77) [], rfl⟩⟩
  have hissue' : Issue (s.trail acts 4) (acts 4) 1
      ⟨⟨"Ask", .of .request 0x77, [], true, some reply⟩, [], false⟩ (.anyOf reply) :=
    ⟨rfl, ⟨5000, rfl⟩, ⟨1, .ofHeader (.of .request 0x77) [], rfl⟩⟩
  let r : Bool → s.Request acts
    | false => ⟨0, 3, _, _, hissue⟩
    | true => ⟨1, 4, _, _, hissue'⟩
  have hup : ∀ n < 14, 3 ≤ n →
      ((s.run (moves.take n)).line? 1).any (fun l => !l.link.closed) = true := by decide +kernel
  obtain ⟨hkept, hlistener⟩ : (r false).Kept ∧ (r false).listener = 0 := by
    refine Request.kept_thenRest 1 hdone ?_ ?_ hup (by simp [r, request, answer, Act.handles])
    · exact (by decide +kernel : (s.run (moves.take 3)).current = some 1)
    · exact (by decide +kernel : (s.run (moves.take 3)).registry.nextId = 0)
  obtain ⟨hkept', hlistener'⟩ : (r true).Kept ∧ (r true).listener = 1 := by
    refine Request.kept_thenRest 1 hdone ?_ ?_
      (fun n hn hle => hup n hn (Nat.le_of_succ_le hle)) (by simp [r, request, answer, Act.handles])
    · exact (by decide +kernel : (s.run (moves.take 4)).current = some 1)
    · exact (by decide +kernel : (s.run (moves.take 4)).registry.nextId = 1)
  have hids : Function.Injective fun i => (r i).id := by
    intro i j hij
    match i, j, hij with
    | false, false, _ | true, true, _ => rfl
    | false, true, hij => exact absurd hij Nat.zero_ne_one
    | true, false, hij => exact absurd hij Nat.one_ne_zero
  have hblocking : ∀ i, (r i).command.isBlocking = true := by
    intro i
    cases i <;> rfl
  have hamong : ∀ i, (r i).Among fun k => ∃ j, k = (r j).listener := by
    have hlisteners : ∀ n < 14, ∀ k ∈ (s.run (moves.take n)).registry.listeners.map (·.1),
        k = 0 ∨ k = 1 := by decide +kernel
    refine fun i => Request.among_thenRest hdone fun n hn k hk => ?_
    rcases hlisteners n hn k hk with rfl | rfl
    · exact ⟨false, hlistener.symm⟩
    · exact ⟨true, hlistener'.symm⟩
  have hfair : s.Fair acts := fair_thenRest hdone
  have hheaders : (s.run moves).log.map (fun e => e.command?.map Command.header)
      = [none, some reply.header, none, none, some reply.header, none] := by decide +kernel
  -- of the record only who wrote, and who returned what kind, is computed
  have hgist : (s.run moves).log.map Event.gist = [(some 0, false, none), (none, true, none),
      (none, false, some 0), (some 1, false, none), (none, true, none), (none, false, some 1)] := by
    decide +kernel
  have hlogs : ∀ {p e}, s.Logs acts p e → (s.run moves).log[p]? = some e := logs_thenRest.mp
  obtain ⟨a, ha, hheader⟩ : ∃ a, (s.run moves).log[1]? = some (.dispatched a)
      ∧ a.header = reply.header := dispatched_of_header (by rw [hheaders]; rfl)
  obtain ⟨b, hb, hheader'⟩ : ∃ b, (s.run moves).log[4]? = some (.dispatched b)
      ∧ b.header = reply.header := dispatched_of_header (by rw [hheaders]; rfl)
  obtain ⟨line, bytes, hsent⟩ : ∃ line bytes, (s.run moves).log[0]? = some (.sent 0 line bytes) :=
    sent_of_gist (by rw [hgist]; rfl)
  obtain ⟨line', bytes', hsent'⟩ : ∃ line bytes,
      (s.run moves).log[3]? = some (.sent 1 line bytes) := sent_of_gist (by rw [hgist]; rfl)
  let place : Bool → Nat
    | false => 1
    | true => 4
  let answers : Bool → Command
    | false => a
    | true => b
  have hanswers : Answers r place answers := by
    refine ⟨fun i => ?_, fun i => ?_, fun i => ?_, fun i q _ hlate => ?_, fun i p d _ hd _ => ?_⟩
    · cases i
      · exact logs_thenRest.mpr ha
      · exact logs_thenRest.mpr hb
    · cases i
      · exact hheader
      · exact hheader'
    · cases i
      · exact ⟨0, Nat.zero_lt_one, line, bytes, logs_thenRest.mpr hsent⟩
      · exact ⟨3, Nat.lt_succ_self 3, line', bytes', logs_thenRest.mpr hsent'⟩
    · have hmem := List.mem_of_getElem? (gist_of_getElem? (hlogs hlate))
      rw [hgist] at hmem
      exact absurd hmem (by simp [Event.gist])
    · have hkind := gist_of_getElem? (hlogs hd)
      rw [hgist] at hkind
      have hp : p = 1 ∨ p = 4 := by
        rcases p with _ | _ | _ | _ | _ | _ | p <;> simp [Event.gist] at hkind ⊢
      rcases hp with rfl | rfl
      · exact ⟨false, rfl⟩
      · exact ⟨true, rfl⟩
  have hkepts : ∀ i, (r i).Kept := fun i => by
    cases i
    · exact hkept
    · exact hkept'
  refine ⟨r, place, answers, hids, hblocking, hkepts, hamong, hanswers, hfair, fun i => ?_⟩
  exact ((blocking_requests_answered _ _ _ acts r hids hblocking hkepts hamong).2 place answers
    hanswers i).2 hfair

end NcpHost.Session
