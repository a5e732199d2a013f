import NcpHost.Proofs.Session.Gate

/-! A request that nobody lays hands on. As long as its link is not closed, it is not given up and its
listener is its own, a step that offers no command leaves it as it is, or it ends because it has its
answer or its time is over. -/

namespace NcpHost

theorem Command.coversValues_open (fields : List Field) (values : List (Option Value)) :
    coversValues (fields.map fun _ => none) values = true := by
  induction fields generalizing values with
  | nil => cases values <;> rfl
  | cons f rest ih =>
    cases values with
    | nil => rfl
    | cons v others => exact ih others

namespace Session

section

variable {s s' : Session} {act : Act} {id : TaskId} {e : Exchange} {listener : ListenerId}

theorem Issue.hears {c pattern a : Command} (h : Issue s act id c pattern)
    (ha : a.header = pattern.header) : (⟨[pattern], .oneShot⟩ : Listener Deed).hears a = true := by
  obtain ⟨line, packet, hp⟩ := h.prepared
  obtain ⟨response, rfl⟩ : ∃ response, pattern = .anyOf response := by
    unfold prepare at hp
    split at hp
    · exact absurd hp nofun
    · split at hp
      · exact absurd hp nofun
      · exact absurd hp nofun
      · exact absurd hp nofun
      · next pattern' _ _ hpattern _ _ =>
        obtain ⟨rfl, -⟩ := Prod.mk.inj (Except.ok.inj hp)
        unfold Command.responsePattern at hpattern
        split at hpattern
        · exact ⟨_, (Except.ok.inj hpattern).symm⟩
        · exact absurd hpattern nofun
  have hnames : (Command.anyOf response).header.names a.header = true := by
    rw [ha, CommandHeader.names, beq_self_eq_true, beq_self_eq_true]
    rfl
  have hcovers : (Command.anyOf response).covers a = true := by
    rw [Command.covers, hnames, Bool.true_and]
    exact Command.coversValues_open response.fields a.values
  exact List.any_eq_true.mpr ⟨_, List.mem_singleton_self _, hcovers⟩

def Unawaited (s : Session) (listener : ListenerId) : Prop :=
  ∀ k t, s.task? k = some t → t.waits? ≠ some listener

theorem waits?_sendNext {k : TaskId} (h : s.task? id ≠ none) (e : Exchange) (frames : List Frame)
    {t : Stage} (ht : (s.sendNext id e frames).task? id = some t) : t.waits? ≠ some k := by
  have he := exchange?_sendNext h e frames
  rw [exchange?_of_task? ht] at he
  intro hw
  cases t <;> first
    | exact absurd hw (Option.some_ne_none _).symm
    | exact absurd he (Option.some_ne_none _).symm

theorem Move.waits? (h : Move id s s') {t' : Stage} (ht' : s'.task? id = some t')
    (hw : t'.waits? = some listener) : ∃ t, s.task? id = some t ∧ t.waits? = some listener := by
  have hgone : ∀ {s₀ : Session} {o : Outcome}, (s₀.finish id o).task? id = some t' →
      ∃ t, s.task? id = some t ∧ t.waits? = some listener :=
    fun ht' => absurd ((task?_finish_self _ id _).symm.trans ht') nofun
  cases h with
  | leave | receive | fail | take | endReset => exact hgone ht'
  | call => exact absurd (((task?_dropTask s id id).trans (if_pos rfl)).symm.trans ht') nofun
  | rest ht _ _ _ _ hsame =>
    obtain rfl := Option.some.inj ((task?_suspend_self (ne_none_of_task? ht) _).symm.trans ht')
    exact ⟨_, ht, hsame.symm.trans hw⟩
  | @issue _ _ _ pattern _ _ _ ht =>
    have hid : ({ s with registry := (s.registry.await [pattern]).1 } : Session).task? id ≠ none :=
      ne_none_of_task? ht
    exact absurd hw (waits?_sendNext hid _ _ ht')
  | gate _ ht =>
    obtain rfl := Option.some.inj ((task?_suspend_self (ne_none_of_task? ht) _).symm.trans ht')
    exact absurd hw nofun
  | pass ht => exact absurd hw (waits?_sendNext (ne_none_of_task? ht) _ _ ht')
  | write _ _ hs => exact ⟨t', (hs.task? id).symm.trans ht', hw⟩
  | next ht hs => exact absurd hw (waits?_sendNext (hs.task? id ▸ ne_none_of_task? ht) _ _ ht')
  | @enterReset _ line request _ ht =>
    have hid : (s.enterSend id line request).task? id ≠ none := ne_none_of_task? ht
    obtain rfl := Option.some.inj ((task?_suspend_self hid _).symm.trans ht')
    exact absurd hw nofun
  | passReset ht hs _ _ hwaits =>
    have hid := ne_none_of_task? ((hs.task? id).trans ht)
    obtain rfl := Option.some.inj ((task?_suspend_self hid _).symm.trans ht')
    exact absurd (hwaits.symm.trans hw) nofun

theorem Stage.waits?_noticeLoss (t : Stage) : t.noticeLoss.waits? = t.waits? := by
  cases t <;> rfl

theorem Step.unawaited (h : Step act s s') (hno : act ≠ .start (.wait listener))
    (hu : s.Unawaited listener) : s'.Unawaited listener := by
  intro k t' ht' hw
  cases h.atTask k with
  | same hsame => exact hu k t' (hsame.symm.trans ht') hw
  | starts job _ _ hnew hjob =>
    obtain rfl := Option.some.inj (hnew.symm.trans ht')
    obtain rfl : job = .wait listener := by
      cases job <;> first
        | exact congrArg Job.wait (Option.some.inj hw)
        | exact absurd hw (Option.some_ne_none _).symm
    rcases hjob with hact | ⟨_, _, heq⟩
    · exact hno hact
    · exact absurd heq nofun
  | @told t ht htold =>
    obtain rfl := Option.some.inj (htold.symm.trans ht')
    exact hu k t ht ((Stage.waits?_noticeLoss t).symm.trans hw)
  | moves hm =>
    obtain ⟨t, ht, hw⟩ := hm.waits? ht' hw
    exact hu k t ht hw
  | aborts _ hgone => exact absurd (hgone.symm.trans ht') nofun

theorem Steps.nextId_le (h : Steps act s s') (ho : s.Orderly) :
    s.registry.nextId ≤ s'.registry.nextId := by
  induction h with
  | refl => exact Nat.le_refl _
  | tail hsteps hstep ih => exact Nat.le_trans ih (hstep.nextId_le (ho.steps hsteps).listening)

theorem Steps.listened {line : LineId} {l : Listener Deed} (h : Steps (.turn (.reader line)) s s')
    (ho : s.Orderly) (hnew : s'.registry.listener? listener = some l) :
    s.registry.listener? listener = some l := by
  induction h with
  | refl => exact hnew
  | tail hsteps hstep ih => exact ih (hstep.listened (ho.steps hsteps).listening hnew)

theorem Linked.not_refused {line : LineId} {l : Line} {cause : Fault} (h : s.Linked)
    (hl : s.line? line = some l) (hopen : l.link.closed = false) :
    ¬Sends id line s s' (some (.error cause)) := by
  intro hs
  have hsound := h.sound line l hl
  generalize hresult : some (Except.error cause) = result at hs
  cases hs with
  | stray hnone => exact absurd (hnone.symm.trans hl) nofun
  | goes hl' hp =>
    obtain rfl := Option.some.inj (hl.symm.trans hl')
    cases hp with
    | refused _ _ hc => exact absurd (hopen.symm.trans hc) nofun
    | unheard _ _ _ ho => exact absurd (hopen.symm.trans (h.outlet line l hl ho)) nofun
    | @settled deadline verdict hstage =>
      cases verdict with
      | acknowledged => exact absurd hresult nofun
      | abandoned => exact hsound.awaited hopen id deadline hstage
    | gone | behind | writes | passes | expired | waits => exact absurd hresult nofun

def Up (s : Session) (line : LineId) : Prop := ∃ l, s.line? line = some l ∧ l.link.closed = false

theorem Up.current {line : LineId} (h : s.Up line) (hl : s.Linked) : s.current = some line := by
  obtain ⟨l, hline, hopen⟩ := h
  exact hl.used line l hline hopen

theorem Step.up {line : LineId} (h : Step act s s') (hr : s.Regular) (hline : s.line? line ≠ none)
    (hup : s'.Up line) : s.Up line := by
  obtain ⟨l, hl⟩ := Option.ne_none_iff_exists'.mp hline
  obtain ⟨l', hl', hopen⟩ := hup
  obtain ⟨l₁, hl₁, hshift⟩ := h.shift hr.orderly.listening hl (hr.linked.used line l hl)
  obtain rfl := Option.some.inj (hl₁.symm.trans hl')
  refine ⟨l, hl, Bool.eq_false_iff.mpr fun hc => ?_⟩
  exact absurd ((hshift.closed hc).symm.trans hopen) nofun

theorem Steps.up {line : LineId} (h : Steps act s s') (hr : s.Regular)
    (hline : s.line? line ≠ none) (hup : s'.Up line) : s.Up line := by
  induction h with
  | refl => exact hup
  | @tail s₁ s₂ hsteps hstep ih =>
    have hr₁ := hr.steps hsteps
    refine ih (hstep.up hr₁ ?_ hup)
    clear ih hup hstep hr₁
    induction hsteps with
    | refl => exact hline
    | tail hsteps hstep ih =>
      exact hstep.line?_ne_none (hr.steps hsteps).orderly.listening (hr.steps hsteps).linked ih

theorem Step.still_up {line : LineId} (h : Step act s s') (hr : s.Regular)
    (hmay : ¬MaySwitch act s) (hup : s.Up line) : s'.Up line := by
  obtain ⟨l, hl, hopen⟩ := hup
  obtain ⟨l', hl', hshift⟩ := h.shift hr.orderly.listening hl (hr.linked.used line l hl)
  exact ⟨l', hl', (hshift.keeps hmay).1.trans hopen⟩

/-- Nothing is done to a request in this act but in its own turn. -/
structure Sheltered (act : Act) (id : TaskId) (e : Exchange) (s : Session) : Prop where
  up : s.Up e.line
  kept : act ≠ .abort id
  unhandled : act.handles e.listener = false
  unawaited : s.Unawaited e.listener

inductive Fares (act : Act) (id : TaskId) (e : Exchange) (s s' : Session) : Prop where
  | stays : s'.exchange? id = some e → Registry.Same e.listener s.registry s'.registry →
    (∃ new, s'.log = s.log ++ new ∧ Besides id new) → Fares act id e s s'
  | ends {deadline : Nat} {result : Except Fault Command} : Finds s e deadline result →
    s'.task? id = none → s'.registry = s.registry.release e.listener →
    (∃ (line : LineId) (writes : List (List UInt8)),
      s'.log = s.log ++ writes.map (.sent id line) ++ [.finished id (e.purpose.outcome result)]) →
    Fares act id e s s'

theorem Touch.fares (h : Touch act id e s s') (hr : s.Regular) (hs : Sheltered act id e s) :
    Fares act id e s s' := by
  obtain ⟨l, hl, hopen⟩ := hs.up
  cases h with
  | spares he hsame hlog => exact .stays he hsame hlog
  | clears _ hnone => exact absurd (hnone.symm.trans (hs.up.current hr.linked)) nofun
  | robs hrobs =>
    rcases hrobs with hhandles | ⟨k, t, ht, hw⟩
    · exact absurd (hs.unhandled.symm.trans hhandles) nofun
    · exact absurd hw (hs.unawaited k t ht)
  | aborts hact => exact absurd hact hs.kept
  | ends _ hends hgone hregistry hlog =>
    cases hends with
    | found _ hfinds => exact .ends hfinds hgone hregistry hlog
    | unsent _ hsends => exact absurd hsends (hr.linked.not_refused hl hopen)

theorem Step.keeps_exchange (h : Step act s s') (hl : s.Listening) (hown : act ≠ .turn (.task id))
    (hkept : act ≠ .abort id) (he : s.exchange? id = some e) : s'.exchange? id = some e := by
  rcases hl.touch h with ⟨line, c, -, rfl⟩ | htouch
  · exact he
  · cases htouch id e he with
    | spares he' | clears _ _ he' | robs _ he' => exact he'
    | aborts hact => exact absurd hact hkept
    | ends hact => exact absurd hact hown

theorem Steps.keeps_exchange (h : Steps act s s') (hr : s.Regular) (hown : act ≠ .turn (.task id))
    (hkept : act ≠ .abort id) (he : s.exchange? id = some e) : s'.exchange? id = some e := by
  induction h with
  | refl => exact he
  | tail hsteps hstep ih => exact hstep.keeps_exchange (hr.steps hsteps).orderly.listening hown hkept ih

theorem not_maySwitch (hact : act = .turn (.task id)) (he : s.exchange? id ≠ none) :
    ¬MaySwitch act s := by
  intro hmay
  obtain ⟨attempt, due, ht⟩ := hmay id hact
  exact he (exchange?_of_task? ht)

end

end Session

end NcpHost
