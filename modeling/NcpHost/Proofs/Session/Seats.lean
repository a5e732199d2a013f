import NcpHost.Proofs.Link.History
import NcpHost.Proofs.Session.Issue

/-! Tasks and the sends that they have at links. In every state that a step leaves, those in line for
the send lock of a link are the tasks that have a send there, lines that are not closed are in use, and
a link that is not closed takes what is written to it. -/

namespace NcpHost

namespace Session

theorem Stage.line?_of_seat? {t : Stage} {line : LineId} (h : t.seat? = some line) :
    t.line? = some line := by
  cases t <;> first | exact h | exact absurd h nofun

theorem Stage.line?_of_exchange? {t : Stage} {e : Exchange} (h : t.exchange? = some e) :
    t.line? = some e.line := by
  cases t <;> first | exact congrArg (Option.map Exchange.line) h | exact absurd h nofun

theorem Stage.Plain.line? {t : Stage} (h : t.Plain) : t.line? = none := by
  obtain ⟨he, hs⟩ := h
  cases t <;> first | rfl | exact absurd he (Option.some_ne_none _) | exact absurd hs (Option.some_ne_none _)

theorem Stage.seat?_noticeLoss (t : Stage) : t.noticeLoss.seat? = t.seat? := by
  cases t <;> rfl

theorem Stage.line?_noticeLoss (t : Stage) : t.noticeLoss.line? = t.line? := by
  cases t <;> rfl

def seat? (s : Session) (id : TaskId) : Option LineId := (s.task? id).bind Stage.seat?

inductive Sit (id : TaskId) (s s' : Session) : Prop where
  | idle : s.seat? id = none → s'.seat? id = none → s'.lines = s.lines → Sit id s s'
  | enters {line : LineId} {frame : Frame} : s.seat? id = none → s'.seat? id = some line →
    s'.lines = (s.enterSend id line frame).lines → Sit id s s'
  | stays {line : LineId} {s₁ : Session} : s.seat? id = some line → Sends id line s s₁ none →
    s'.seat? id = some line → s'.lines = s₁.lines → Sit id s s'
  | leaves {line : LineId} {s₁ : Session} {result : Except Fault Unit} : s.seat? id = some line →
    Sends id line s s₁ (some result) → s'.seat? id = none → s'.lines = s₁.lines → Sit id s s'
  | follows {line : LineId} {s₁ : Session} {frame : Frame} : s.seat? id = some line →
    Sends id line s s₁ (some (.ok ())) → s'.task? id ≠ s.task? id → s'.seat? id = some line →
    s'.lines = (s₁.enterSend id line frame).lines → Sit id s s'

section

variable {s s' : Session} {act : Act} {id : TaskId}

theorem seat?_of_task? {t : Stage} (h : s.task? id = some t) : s.seat? id = t.seat? := by
  rw [seat?, h]
  rfl

theorem seat?_of_gone (h : s.task? id = none) : s.seat? id = none := by
  rw [seat?, h]
  rfl

theorem seat?_suspend_self (h : s.task? id ≠ none) (t : Stage) :
    (s.suspend id t).seat? id = t.seat? :=
  seat?_of_task? (task?_suspend_self h t)

theorem seat?_finish_self (s : Session) (id : TaskId) (outcome : Outcome) :
    (s.finish id outcome).seat? id = none :=
  seat?_of_gone (task?_finish_self s id outcome)

theorem seat?_sendNext (h : s.task? id ≠ none) (e : Exchange) (frames : List Frame) :
    (s.sendNext id e frames).seat? id = none ∧ (s.sendNext id e frames).lines = s.lines
      ∨ (s.sendNext id e frames).seat? id = some e.line
        ∧ ∃ frame, (s.sendNext id e frames).lines = (s.enterSend id e.line frame).lines := by
  cases frames with
  | nil => exact Or.inl ⟨seat?_suspend_self h _, rfl⟩
  | cons frame rest =>
    have hentered : (s.enterSend id e.line frame).task? id ≠ none := h
    exact Or.inr ⟨seat?_suspend_self hentered _, frame, rfl⟩

theorem Move.sit (h : Move id s s') : Sit id s s' := by
  have hplain : ∀ {t : Stage}, s.task? id = some t → t.Plain → s.seat? id = none :=
    fun ht hp => (seat?_of_task? ht).trans hp.2
  have hbegins : ∀ {s₀ : Session} {e : Exchange} {frames : List Frame}, s₀.lines = s.lines →
      s₀.task? id ≠ none → s.seat? id = none → Sit id s (s₀.sendNext id e frames) := by
    intro s₀ e frames hlines hid hseat
    rcases seat?_sendNext hid e frames with ⟨hnone, hsame⟩ | ⟨hsome, frame, hentered⟩
    · exact .idle hseat hnone (hsame.trans hlines)
    · refine .enters hseat hsome (hentered.trans (?_ : _ = (s.enterSend id e.line frame).lines))
      unfold enterSend modifyLine
      rw [hlines]
  cases h with
  | leave ht hp => exact .idle (hplain ht hp) (seat?_finish_self s id _) rfl
  | call ht hp =>
    exact .idle (hplain ht hp) (seat?_of_gone ((task?_dropTask s id id).trans (if_pos rfl))) rfl
  | rest ht hp _ hp' =>
    exact .idle (hplain ht hp) ((seat?_suspend_self (ne_none_of_task? ht) _).trans hp'.2) rfl
  | @receive t listener outcome ht hw =>
    have hp : t.seat? = none := by
      cases t <;> first | rfl | exact absurd hw nofun
    exact .idle ((seat?_of_task? ht).trans hp) (seat?_finish_self _ id outcome) rfl
  | issue _ ht => exact hbegins rfl (ne_none_of_task? ht) (seat?_of_task? ht)
  | gate _ ht =>
    exact .idle (seat?_of_task? ht) (seat?_suspend_self (ne_none_of_task? ht) _) rfl
  | pass ht => exact hbegins rfl (ne_none_of_task? ht) (seat?_of_task? ht)
  | write ht hseat hs =>
    have hat := (seat?_of_task? ht).trans hseat
    refine .stays hat hs ?_ rfl
    rw [seat?, hs.task?]
    exact hat
  | next ht hs =>
    have hid : s.task? id ≠ none := ne_none_of_task? ht
    have hid' := hs.task? id ▸ hid
    rcases seat?_sendNext hid' _ _ with ⟨hnone, hsame⟩ | ⟨hsome, frame, hentered⟩
    · exact .leaves (seat?_of_task? ht) hs hnone hsame
    · exact .follows (seat?_of_task? ht) hs (ht ▸ task?_sendNext_ne hid' _ _) hsome hentered
  | fail ht hs => exact .leaves (seat?_of_task? ht) hs (seat?_finish_self _ id _) rfl
  | take ht => exact .idle (seat?_of_task? ht) (seat?_finish_self _ id _) rfl
  | @enterReset t line request wait ht hreset =>
    have hseat : s.seat? id = none := by
      rw [seat?_of_task? ht]
      rcases hreset with ⟨_, rfl⟩ | rfl <;> rfl
    have hentered : (s.enterSend id line request).task? id ≠ none := ne_none_of_task? ht
    exact @Sit.enters id s _ line request hseat (seat?_suspend_self hentered _) rfl
  | passReset ht hs hp =>
    have hid := ne_none_of_task? ((hs.task? id).trans ht)
    exact .leaves (seat?_of_task? ht) hs ((seat?_suspend_self hid _).trans hp.2) rfl
  | endReset ht hs => exact .leaves (seat?_of_task? ht) hs (seat?_finish_self _ id _) rfl

theorem Move.seat?_of_ne (h : Move id s s') {k : TaskId} (hk : k ≠ id) :
    s'.seat? k = s.seat? k := by
  rw [seat?, h.others hk, seat?]

def sitsAt (s : Session) (line : LineId) (id : TaskId) : Prop := s.seat? id = some line

def SameSeats (s s' : Session) (line : LineId) : Prop := ∀ k, s'.sitsAt line k ↔ s.sitsAt line k

/-- What a step does to the link of a line, with those who have a send there. Links are closed and given
up by whoever may switch lines. -/
inductive Shift (act : Act) (s s' : Session) (line : LineId) (l : Link) : Link → Prop where
  | tends {l' : Link} : SameSeats s s' line → Tended l l' → Shift act s s' line l l'
  | closes : MaySwitch act s → SameSeats s s' line → Shift act s s' line l l.close
  | drops : MaySwitch act s → l.closed = true → SameSeats s s' line →
    Shift act s s' line l l.dropOutlet
  | enters {id : TaskId} (frame : Frame) : ¬s.sitsAt line id →
    (∀ k, s'.sitsAt line k ↔ s.sitsAt line k ∨ k = id) → Shift act s s' line l (l.enter id frame)
  | stays {id : TaskId} {now : Nat} {l' : Link} : SameSeats s s' line →
    l.Proceeds id now l' none → Shift act s s' line l l'
  | leaves {id : TaskId} {now : Nat} {l' : Link} {result : Except Fault Unit} :
    (∀ k, s'.sitsAt line k ↔ s.sitsAt line k ∧ k ≠ id) → l.Proceeds id now l' (some result) →
    Shift act s s' line l l'
  | follows {id : TaskId} {now : Nat} {l' : Link} (frame : Frame) : s.sitsAt line id →
    s'.task? id ≠ s.task? id → SameSeats s s' line → l.Proceeds id now l' (some (.ok ())) →
    Shift act s s' line l (l'.enter id frame)
  | aborts (id : TaskId) : (∀ k, s'.sitsAt line k ↔ s.sitsAt line k ∧ k ≠ id) →
    Shift act s s' line l (l.abort id)

theorem tended_refl (l : Link) : Tended l l := .same rfl rfl rfl rfl rfl rfl

theorem sitsAt_congr {s s' : Session} {id : TaskId} (h : s'.seat? id = s.seat? id) (line : LineId) :
    s'.sitsAt line id ↔ s.sitsAt line id := by
  rw [sitsAt, h, sitsAt]

theorem line?_modifyLine_of_some {line line' : LineId} {l : Line} (h : s.line? line = some l)
    (f : Line → Line) :
    (s.modifyLine line' f).line? line = some (if line = line' then f l else l) := by
  split
  · next heq => rw [← heq, line?_modifyLine_self h]
  · next hne => rw [line?_modifyLine_of_ne s hne, h]

theorem Sends.line?_eq {line line' : LineId} {l : Line} {s₁ : Session}
    {result : Option (Except Fault Unit)} (h : Sends id line' s s₁ result)
    (hl : s.line? line = some l) :
    line ≠ line' ∧ s₁.line? line = some l ∨ line = line' ∧ ∃ link,
      l.link.Proceeds id s.agenda.now link result ∧ s₁.line? line = some { l with link := link } := by
  cases h with
  | stray hnone =>
    refine Or.inl ⟨?_, hl⟩
    rintro rfl
    exact absurd (hnone.symm.trans hl) nofun
  | @goes l' link _ hl' hp =>
    have hline : (s.modifyLine line' fun l => { l with link := link }).line? line
        = some (if line = line' then { l with link := link } else l) :=
      line?_modifyLine_of_some hl _
    by_cases heq : line = line'
    · subst heq
      obtain rfl := Option.some.inj (hl.symm.trans hl')
      exact Or.inr ⟨rfl, link, hp, hline.trans (congrArg some (if_pos rfl))⟩
    · exact Or.inl ⟨heq, hline.trans (congrArg some (if_neg heq))⟩

theorem line?_of_lines (h : s'.lines = s.lines) (line : LineId) : s'.line? line = s.line? line := by
  rw [line?, h, line?]

theorem line?_enterSend {line line' : LineId} {l : Line} (hl : s.line? line = some l)
    (frame : Frame) : (s.enterSend id line' frame).line? line
      = some (if line = line' then { l with link := l.link.enter id frame } else l) :=
  line?_modifyLine_of_some hl fun l => { l with link := l.link.enter id frame }

theorem Move.sameSeats (h : Move id s s') {line : LineId}
    (hid : s'.sitsAt line id ↔ s.sitsAt line id) : SameSeats s s' line := by
  intro k
  by_cases hk : k = id
  · exact hk ▸ hid
  · exact sitsAt_congr (h.seat?_of_ne hk) line

theorem Move.seats_left (h : Move id s s') (hnone : s'.seat? id = none) (line : LineId)
    (k : TaskId) : s'.sitsAt line k ↔ s.sitsAt line k ∧ k ≠ id := by
  by_cases hk : k = id
  · subst hk
    simp [sitsAt, hnone]
  · rw [sitsAt, h.seat?_of_ne hk]
    exact ⟨fun hs => ⟨hs, hk⟩, And.left⟩

theorem Move.seats_joined (h : Move id s s') {line : LineId} (hsome : s'.seat? id = some line)
    (k : TaskId) : s'.sitsAt line k ↔ s.sitsAt line k ∨ k = id := by
  by_cases hk : k = id
  · subst hk
    simp [sitsAt, hsome]
  · rw [sitsAt, h.seat?_of_ne hk]
    exact ⟨Or.inl, fun hs => hs.resolve_right hk⟩

theorem Move.shift (h : Move id s s') (act : Act) {line : LineId} {l : Line}
    (hl : s.line? line = some l) :
    ∃ l', s'.line? line = some l' ∧ Shift act s s' line l.link l'.link := by
  have hsame : (s'.sitsAt line id ↔ s.sitsAt line id) → s'.line? line = some l →
      ∃ l', s'.line? line = some l' ∧ Shift act s s' line l.link l'.link :=
    fun hid hl' => ⟨l, hl', .tends (h.sameSeats hid) (tended_refl _)⟩
  cases h.sit with
  | idle hseat hseat' hlines =>
    exact hsame (sitsAt_congr (hseat'.trans hseat.symm) line)
      ((line?_of_lines hlines line).trans hl)
  | @enters line' frame hseat hseat' hlines =>
    have hl' := (line?_of_lines hlines line).trans (line?_enterSend hl frame)
    by_cases heq : line = line'
    · subst heq
      rw [if_pos rfl] at hl'
      refine ⟨_, hl', .enters frame ?_ (h.seats_joined hseat')⟩
      rw [sitsAt, hseat]
      exact nofun
    · rw [if_neg heq] at hl'
      refine hsame ?_ hl'
      simp [sitsAt, hseat, hseat', Ne.symm heq]
  | @stays line' s₁ hseat hs hseat' hlines =>
    have hid := sitsAt_congr (hseat'.trans hseat.symm) line
    rcases hs.line?_eq hl with ⟨hne, hl₁⟩ | ⟨rfl, link, hp, hl₁⟩
    · exact hsame hid ((line?_of_lines hlines line).trans hl₁)
    · exact ⟨_, (line?_of_lines hlines line).trans hl₁, .stays (h.sameSeats hid) hp⟩
  | @leaves line' s₁ result hseat hs hseat' hlines =>
    rcases hs.line?_eq hl with ⟨hne, hl₁⟩ | ⟨rfl, link, hp, hl₁⟩
    · refine hsame ?_ ((line?_of_lines hlines line).trans hl₁)
      simp [sitsAt, hseat, hseat', Ne.symm hne]
    · exact ⟨_, (line?_of_lines hlines line).trans hl₁, .leaves (h.seats_left hseat' line) hp⟩
  | @follows line' s₁ frame hseat hs hmoved hseat' hlines =>
    have hid := sitsAt_congr (hseat'.trans hseat.symm) line
    rcases hs.line?_eq hl with ⟨hne, hl₁⟩ | ⟨rfl, link, hp, hl₁⟩
    · have hl' := (line?_of_lines hlines line).trans (line?_enterSend hl₁ frame)
      rw [if_neg hne] at hl'
      exact hsame hid hl'
    · have hl' := (line?_of_lines hlines line).trans (line?_enterSend hl₁ frame)
      rw [if_pos rfl] at hl'
      exact ⟨_, hl', .follows frame hseat hmoved (h.sameSeats hid) hp⟩

theorem seat?_spawn (hs : s.task? s.nextTask = none) (job : Job) (k : TaskId) :
    (s.spawn job).1.seat? k = s.seat? k := by
  rw [seat?, task?_spawn hs, seat?]
  split
  · next hk =>
    rw [hk, hs]
    rfl
  · rfl

theorem shift_same {line : LineId} {l : Line} (hseat : ∀ k, s'.seat? k = s.seat? k)
    (hl' : s'.line? line = some l) :
    ∃ l', s'.line? line = some l' ∧ Shift act s s' line l.link l'.link :=
  ⟨l, hl', .tends (fun k => sitsAt_congr (hseat k) line) (tended_refl _)⟩

theorem shift_modifyLine {line line' : LineId} {l : Line} (hl : s.line? line = some l)
    (f : Line → Line)
    (hf : line = line' → Shift act s (s.modifyLine line' f) line l.link (f l).link) :
    ∃ l', (s.modifyLine line' f).line? line = some l'
      ∧ Shift act s (s.modifyLine line' f) line l.link l'.link := by
  refine ⟨_, line?_modifyLine_of_some hl f, ?_⟩
  split
  · next heq => exact hf heq
  · exact .tends (fun _ => Iff.rfl) (tended_refl _)

theorem Ripple.shift (h : Ripple s s') (hs : s.Listening) (act : Act) {line : LineId} {l : Line}
    (hl : s.line? line = some l) :
    ∃ l', s'.line? line = some l' ∧ Shift act s s' line l.link l'.link := by
  cases h with
  | quiet hq =>
    refine shift_same (fun k => ?_) ((line?_of_lines hq.lines line).trans hl)
    rw [seat?, hq.task?, seat?]
  | note => exact shift_same (fun _ => rfl) hl
  | spawn => exact shift_same (seat?_spawn hs.unused _) hl
  | upkeep hf =>
    refine shift_modifyLine hl _ ?_
    rintro rfl
    exact .tends (fun _ => Iff.rfl) (hf l hl)

theorem Switch.shift (h : Switch s s') (hmay : MaySwitch act s) {line : LineId} {l : Line}
    (hl : s.line? line = some l) (hused : l.link.closed = false → s.current = some line) :
    ∃ l', s'.line? line = some l' ∧ Shift act s s' line l.link l'.link := by
  cases h with
  | shut hf =>
    refine shift_modifyLine hl _ ?_
    rintro rfl
    rw [hf l hl]
    exact .closes hmay fun _ => Iff.rfl
  | stopWriting hf =>
    refine shift_modifyLine hl Line.stopWriting ?_
    rintro rfl
    refine .drops hmay ?_ fun _ => Iff.rfl
    rcases hf l hl with hc | hh
    · exact hc
    · by_contra hc
      have hcurrent := hused (Bool.eq_false_iff.mpr hc)
      simp [holds, hcurrent] at hh
  | addLine ackTimeout =>
    refine shift_same (fun _ => rfl) (List.lookup_append.trans ?_)
    rw [show s.lines.lookup line = some l from hl]
    rfl
  | unuse | clear => exact shift_same (fun _ => rfl) hl
  | noticeLoss =>
    refine shift_same (fun k => ?_) hl
    rw [seat?, task?_noticeLoss, seat?]
    cases s.task? k with
    | none => rfl
    | some t => exact Stage.seat?_noticeLoss t

theorem shift_abort (act : Act) (id : TaskId) {line : LineId} {l : Line}
    (hl : s.line? line = some l) :
    ∃ l', (s.abort id).line? line = some l' ∧ Shift act s (s.abort id) line l.link l'.link := by
  rcases s.abort_cases id with ⟨-, heq⟩ | ⟨t, ht, ha⟩
  · exact shift_same (fun k => by rw [heq]) (by rw [heq]; exact hl)
  · have hseat : ∀ k, (s.abort id).seat? k = if k = id then none else s.seat? k := by
      intro k
      rw [seat?, ha.task?, seat?]
      split <;> rfl
    have hsits : ∀ k, (s.abort id).sitsAt line k ↔ s.sitsAt line k ∧ k ≠ id := by
      intro k
      rw [sitsAt, hseat, sitsAt]
      split <;> simp [*]
    have hl' := ha.line? line
    rw [hl] at hl'
    split at hl'
    · exact ⟨_, hl', .aborts id hsits⟩
    · next hne =>
      -- its send, if it has one, is at another line
      refine ⟨l, hl', .tends (fun k => (hsits k).trans ⟨And.left, fun hk => ⟨hk, ?_⟩⟩)
        (tended_refl _)⟩
      rintro rfl
      exact hne (Stage.line?_of_seat? ((seat?_of_task? ht).symm.trans hk))

theorem Step.shift (h : Step act s s') (hs : s.Listening) {line : LineId} {l : Line}
    (hl : s.line? line = some l) (hused : l.link.closed = false → s.current = some line) :
    ∃ l', s'.line? line = some l' ∧ Shift act s s' line l.link l'.link := by
  cases h with
  | ripple hr => exact hr.shift hs _ hl
  | switch hmay hswitch => exact hswitch.shift hmay hl hused
  | start job => exact shift_same (seat?_spawn hs.unused job) hl
  | await | subscribe | remove | cancel | release | offer => exact shift_same (fun _ => rfl) hl
  | move _ hm => exact hm.shift _ hl
  | abort id => exact shift_abort _ id hl

theorem Tended.keeps {l l' : Link} (h : Tended l l') : l'.sendLock = l.sendLock
    ∧ l'.closed = l.closed ∧ l'.outlet = l.outlet := by
  cases h with
  | same _ hk _ hc ho => exact ⟨hk, hc, ho⟩
  | heard frame =>
    obtain ⟨hk, hc, -⟩ := l.accept_keeps frame
    exact ⟨hk, hc, l.outlet_accept frame⟩

theorem Tended.sound {l l' : Link} (h : Tended l l') (hs : l.Sound) : l'.Sound := by
  cases h with
  | same hsends hk hw hc => exact hs.congr hsends hk hw hc
  | heard frame => exact hs.accept frame

theorem Shift.sound {line : LineId} {l l' : Link} (h : Shift act s s' line l l') (hs : l.Sound)
    (hsits : ∀ k, k ∈ l.sendLock.line ↔ s.sitsAt line k) :
    l'.Sound ∧ ∀ k, k ∈ l'.sendLock.line ↔ s'.sitsAt line k := by
  have hsame : ∀ {l' : Link}, l'.sendLock = l.sendLock → SameSeats s s' line →
      ∀ k, k ∈ l'.sendLock.line ↔ s'.sitsAt line k :=
    fun hk hsame k => hk ▸ (hsits k).trans (hsame k).symm
  have hleft : ∀ {l' : Link} {id : TaskId}, l'.sendLock = l.sendLock.leave id →
      (∀ k, k ∈ l'.sendLock.line ↔ s.sitsAt line k ∧ k ≠ id) := by
    intro l' id hk k
    rw [hk]
    exact (FairLock.mem_line_leave hs.nodup).trans (and_congr_left' (hsits k))
  cases h with
  | tends hk ht => exact ⟨ht.sound hs, hsame ht.keeps.1 hk⟩
  | closes _ hk => exact ⟨hs.close, hsame l.close_frame.1 hk⟩
  | drops _ _ hk => exact ⟨hs.congr rfl rfl rfl rfl, hsame rfl hk⟩
  | @enters id frame hid hk =>
    have hout : id ∉ l.sendLock.line := fun hm => hid ((hsits id).mp hm)
    refine ⟨hs.enter hout frame, fun k => ?_⟩
    exact (FairLock.mem_line_join hs.fair).trans ((or_congr_left (hsits k)).trans (hk k).symm)
  | stays hk hp => exact ⟨hp.sound hs, hsame hp.stays hk⟩
  | leaves hk hp => exact ⟨hp.sound hs, fun k => (hleft hp.leaves k).trans (hk k).symm⟩
  | @follows id _ l₁ frame hid _ hk hp =>
    have hs₁ := hp.sound hs
    have hline := hleft hp.leaves
    have hout : id ∉ l₁.sendLock.line := fun hm => ((hline id).mp hm).2 rfl
    refine ⟨hs₁.enter hout frame, fun k => ?_⟩
    refine (FairLock.mem_line_join hs₁.fair).trans ((or_congr_left (hline k)).trans ?_)
    rw [hk k]
    by_cases hkid : k = id
    · simp [hkid, hid]
    · simp [hkid]
  | aborts id hk => exact ⟨hs.abort id, fun k => (hleft rfl k).trans (hk k).symm⟩

theorem Shift.keeps {line : LineId} {l l' : Link} (h : Shift act s s' line l l')
    (hmay : ¬MaySwitch act s) : l'.closed = l.closed ∧ l'.outlet = l.outlet := by
  cases h with
  | tends _ ht => exact ht.keeps.2
  | closes h | drops h => exact absurd h hmay
  | enters | aborts => exact ⟨rfl, rfl⟩
  | stays _ hp | leaves _ hp => exact ⟨hp.keeps.1, hp.outlet⟩
  | follows _ _ _ _ hp => exact ⟨hp.keeps.1, hp.outlet⟩

theorem Shift.closed {line : LineId} {l l' : Link} (h : Shift act s s' line l l')
    (hc : l.closed = true) : l'.closed = true := by
  cases h with
  | tends _ ht => exact ht.keeps.2.1.trans hc
  | closes => rfl
  | drops | enters | aborts => exact hc
  | stays _ hp | leaves _ hp => exact hp.keeps.1.trans hc
  | follows _ _ _ _ hp => exact hp.keeps.1.trans hc

theorem Shift.outlet {line : LineId} {l l' : Link} (h : Shift act s s' line l l')
    (ho : l.outlet = false → l.closed = true) (ho' : l'.outlet = false) : l'.closed = true := by
  cases h with
  | tends _ ht =>
    obtain ⟨-, hc, hout⟩ := ht.keeps
    exact hc.trans (ho (hout ▸ ho'))
  | closes => rfl
  | drops _ hc => exact hc
  | enters | aborts => exact ho ho'
  | stays _ hp | leaves _ hp => exact hp.keeps.1.trans (ho (hp.outlet ▸ ho'))
  | follows _ _ _ _ hp => exact hp.keeps.1.trans (ho (hp.outlet ▸ ho'))

structure Linked (s : Session) : Prop where
  sound : ∀ line l, s.line? line = some l → l.link.Sound
  seated : ∀ line l, s.line? line = some l → ∀ k, k ∈ l.link.sendLock.line ↔ s.sitsAt line k
  present : ∀ k t line, s.task? k = some t → t.line? = some line → s.line? line ≠ none
  known : ∀ line, s.line? line ≠ none → line ≤ s.generation
  current : ∀ line, s.current = some line → s.line? line ≠ none
  used : ∀ line l, s.line? line = some l → l.link.closed = false → s.current = some line
  outlet : ∀ line l, s.line? line = some l → l.link.outlet = false → l.link.closed = true

theorem linked_new (config : Config) (catalog : Catalog) (deviceOpens : Bool) :
    (new config catalog deviceOpens).Linked :=
  ⟨fun _ _ h => absurd h nofun, fun _ _ h => absurd h nofun, fun _ _ _ h => absurd h nofun,
    fun _ h => absurd rfl h, fun _ h => absurd h nofun, fun _ _ h => absurd h nofun,
    fun _ _ h => absurd h nofun⟩

theorem line?_modifyLine_of_none {line line' : LineId} (h : s.line? line = none) (f : Line → Line) :
    (s.modifyLine line' f).line? line = none := by
  by_cases heq : line = line'
  · rw [← heq, line?_modifyLine, h, Option.map_none]
  · rw [line?_modifyLine_of_ne s heq, h]

theorem Sends.line?_of_none {line line' : LineId} {s₁ : Session}
    {result : Option (Except Fault Unit)} (h : Sends id line' s s₁ result)
    (hl : s.line? line = none) : s₁.line? line = none := by
  cases h with
  | stray => exact hl
  | @goes _ link => exact line?_modifyLine_of_none hl fun l => { l with link := link }

theorem Step.line?_of_none (h : Step act s s') {line : LineId} (hl : s.line? line = none) :
    s'.line? line = none ∨ line = s.generation + 1 ∧ ∃ ackTimeout,
      s'.line? line = some (.new ackTimeout) ∧ s'.current = some line := by
  cases h with
  | ripple hr =>
    cases hr with
    | quiet hq => exact Or.inl ((line?_of_lines hq.lines line).trans hl)
    | note | spawn => exact Or.inl hl
    | upkeep => exact Or.inl (line?_modifyLine_of_none hl _)
  | switch _ hs =>
    cases hs with
    | shut | stopWriting => exact Or.inl (line?_modifyLine_of_none hl _)
    -- the one step that makes a line
    | addLine ackTimeout =>
      have hnew : ∀ k, (s.lines ++ [(s.generation + 1, Line.new ackTimeout)]).lookup line = k →
          k = none ∨ line = s.generation + 1 ∧ k = some (.new ackTimeout) := by
        rintro k rfl
        rw [List.lookup_append, show s.lines.lookup line = none from hl]
        by_cases heq : line = s.generation + 1
        · exact Or.inr ⟨heq, by simp [heq]⟩
        · exact Or.inl (by simp [List.lookup_cons, beq_false_of_ne heq])
      rcases hnew _ rfl with hnone | ⟨rfl, hsome⟩
      · exact Or.inl hnone
      · exact Or.inr ⟨rfl, ackTimeout, hsome, rfl⟩
    | unuse | clear | noticeLoss => exact Or.inl hl
  | start | await | subscribe | remove | cancel | release | offer => exact Or.inl hl
  | move _ hm =>
    -- what a task does to lines is what it does with its seat
    cases hm.sit with
    | idle _ _ hlines => exact Or.inl ((line?_of_lines hlines line).trans hl)
    | enters _ _ hlines =>
      exact Or.inl ((line?_of_lines hlines line).trans (line?_modifyLine_of_none hl _))
    | stays _ hs _ hlines | leaves _ hs _ hlines =>
      exact Or.inl ((line?_of_lines hlines line).trans (hs.line?_of_none hl))
    | follows _ hs _ _ hlines =>
      exact Or.inl ((line?_of_lines hlines line).trans
        (line?_modifyLine_of_none (hs.line?_of_none hl) _))
  | abort id =>
    rcases s.abort_cases id with ⟨-, heq⟩ | ⟨t, -, ha⟩
    · exact Or.inl ((congrArg (line? · line) heq).trans hl)
    · refine Or.inl ((ha.line? line).trans ?_)
      split
      · rw [hl, Option.map_none]
      · exact hl

theorem current_of_prepare {c pattern : Command} {line : LineId} {packet : Packet}
    (h : s.prepare c = .ok (pattern, line, packet)) : s.current = some line := by
  unfold prepare at h
  split at h
  · exact absurd h nofun
  · split at h
    · exact absurd h nofun
    · exact absurd h nofun
    · exact absurd h nofun
    · next hc _ =>
      obtain ⟨-, rfl, -⟩ := by simpa using h
      exact hc

def LineFrom (s : Session) (k : TaskId) (line : LineId) : Prop :=
  (∃ t, s.task? k = some t ∧ t.line? = some line) ∨ s.current = some line

theorem line?_sendNext_task {s₀ : Session} (hid : s₀.task? id ≠ none) {e : Exchange}
    {frames : List Frame} {t : Stage} {line : LineId}
    (ht : (s₀.sendNext id e frames).task? id = some t) (hl : t.line? = some line) :
    line = e.line := by
  have he := exchange?_sendNext hid e frames
  rw [exchange?_of_task? ht] at he
  exact (Option.some.inj ((Stage.line?_of_exchange? he).symm.trans hl)).symm

theorem Move.lineFrom (h : Move id s s') {t : Stage} {line : LineId} (ht : s'.task? id = some t)
    (hl : t.line? = some line) : s.LineFrom id line := by
  have hgone : ∀ {s₀ : Session} {o : Outcome}, (s₀.finish id o).task? id = some t →
      s.LineFrom id line :=
    fun ht => absurd ((task?_finish_self _ id _).symm.trans ht) nofun
  have hplain : ∀ {t' : Stage}, t'.Plain → s'.task? id = some t' → s.LineFrom id line := by
    intro t' hp ht'
    obtain rfl := Option.some.inj (ht'.symm.trans ht)
    exact absurd (hp.line?.symm.trans hl) nofun
  cases h with
  | leave | receive | fail | take | endReset => exact hgone ht
  | call => exact absurd (((task?_dropTask s id id).trans (if_pos rfl)).symm.trans ht) nofun
  | rest ht₀ _ _ hp => exact hplain hp (task?_suspend_self (ne_none_of_task? ht₀) _)
  | @issue _ _ _ pattern _ _ _ ht₀ _ hp =>
    have hid : ({ s with registry := (s.registry.await [pattern]).1 } : Session).task? id ≠ none :=
      ne_none_of_task? ht₀
    rw [line?_sendNext_task hid ht hl]
    exact Or.inr (current_of_prepare hp)
  | gate _ ht₀ _ hp =>
    obtain rfl := Option.some.inj ((task?_suspend_self (ne_none_of_task? ht₀) _).symm.trans ht)
    obtain rfl := Option.some.inj hl
    exact Or.inr (current_of_prepare hp)
  | pass ht₀ =>
    rw [line?_sendNext_task (ne_none_of_task? ht₀) ht hl]
    exact Or.inl ⟨_, ht₀, rfl⟩
  | write _ _ hs => exact Or.inl ⟨t, (hs.task? id).symm.trans ht, hl⟩
  | next ht₀ hs =>
    rw [line?_sendNext_task (hs.task? id ▸ ne_none_of_task? ht₀) ht hl]
    exact Or.inl ⟨_, ht₀, rfl⟩
  | @enterReset _ line' request _ ht₀ _ hc =>
    have hid : (s.enterSend id line' request).task? id ≠ none := ne_none_of_task? ht₀
    obtain rfl := Option.some.inj ((task?_suspend_self hid _).symm.trans ht)
    obtain rfl := Option.some.inj hl
    exact Or.inr hc
  | passReset ht₀ hs hp =>
    exact hplain hp (task?_suspend_self (ne_none_of_task? ((hs.task? id).trans ht₀)) _)

theorem Step.lineFrom (h : Step act s s') {k : TaskId} {t : Stage} {line : LineId}
    (ht : s'.task? k = some t) (hl : t.line? = some line) : s.LineFrom k line := by
  cases h.atTask k with
  | same hsame => exact Or.inl ⟨t, hsame.symm.trans ht, hl⟩
  | starts _ _ _ hnew =>
    obtain rfl := Option.some.inj (hnew.symm.trans ht)
    exact absurd hl nofun
  | @told t₀ ht₀ htold =>
    obtain rfl := Option.some.inj (htold.symm.trans ht)
    exact Or.inl ⟨t₀, ht₀, (Stage.line?_noticeLoss t₀).symm.trans hl⟩
  | moves hm => exact hm.lineFrom ht hl
  | aborts _ hgone => exact absurd (hgone.symm.trans ht) nofun

theorem Step.current (h : Step act s s') :
    s'.current = s.current ∧ s'.generation = s.generation
      ∨ s.Shut ∧ (s'.current = none ∧ s'.generation = s.generation
        ∨ s'.current = some (s.generation + 1) ∧ s'.generation = s.generation + 1
          ∧ s'.line? (s.generation + 1) ≠ none) := by
  have hsame : s.current = s.current ∧ s.generation = s.generation := ⟨rfl, rfl⟩
  cases h with
  | ripple hr =>
    cases hr with
    | quiet hq => exact Or.inl ⟨hq.current, hq.generation⟩
    | note | spawn | upkeep => exact Or.inl hsame
  | switch _ hs =>
    cases hs with
    | shut | stopWriting | clear | noticeLoss => exact Or.inl hsame
    | unuse hshut => exact Or.inr ⟨hshut, Or.inl ⟨rfl, rfl⟩⟩
    | addLine ackTimeout hshut =>
      refine Or.inr ⟨hshut, Or.inr ⟨rfl, rfl, ?_⟩⟩
      rw [line?, List.lookup_append]
      cases s.lines.lookup (s.generation + 1) <;> simp
  | start | await | subscribe | remove | cancel | release | offer => exact Or.inl hsame
  | move _ hm => exact Or.inl ⟨hm.apart.current, hm.apart.generation⟩
  | abort id => exact Or.inl ⟨(apart_abort s id).current, (apart_abort s id).generation⟩

theorem Step.line?_ne_none (h : Step act s s') (hs : s.Listening) (hl : s.Linked) {line : LineId}
    (hline : s.line? line ≠ none) : s'.line? line ≠ none := by
  obtain ⟨l, hsome⟩ := Option.ne_none_iff_exists'.mp hline
  obtain ⟨l', hl', -⟩ := h.shift hs hsome (hl.used line l hsome)
  rw [hl']
  exact nofun

theorem Step.line_cases (hs : Step act s s') (ho : s.Listening) (h : s.Linked) {line : LineId}
    {l' : Line} (hl' : s'.line? line = some l') :
    (∃ l, s.line? line = some l ∧ Shift act s s' line l.link l'.link)
      ∨ line = s.generation + 1 ∧ s.line? line = none ∧ (∃ ackTimeout, l' = .new ackTimeout)
        ∧ s'.current = some line := by
  cases hl : s.line? line with
  | some l =>
    obtain ⟨l₁, hl₁, hshift⟩ := hs.shift ho hl (h.used line l hl)
    obtain rfl := Option.some.inj (hl₁.symm.trans hl')
    exact Or.inl ⟨l, rfl, hshift⟩
  | none =>
    rcases hs.line?_of_none hl with hnone | ⟨hline, ackTimeout, hnew, hcurrent⟩
    · exact absurd (hnone.symm.trans hl') nofun
    · obtain rfl := Option.some.inj (hnew.symm.trans hl')
      exact Or.inr ⟨hline, rfl, ⟨ackTimeout, rfl⟩, hcurrent⟩

theorem Step.generation_le (h : Step act s s') : s.generation ≤ s'.generation := by
  rcases h.current with ⟨-, hg⟩ | ⟨-, ⟨-, hg⟩ | ⟨-, hg, -⟩⟩
  · exact Nat.le_of_eq hg.symm
  · exact Nat.le_of_eq hg.symm
  · exact hg ▸ Nat.le_succ _

theorem Linked.line_of_task (h : s.Linked) (hs : Step act s s') {k : TaskId} {t : Stage}
    {line : LineId} (ht : s'.task? k = some t) (hl : t.line? = some line) :
    s.line? line ≠ none := by
  rcases hs.lineFrom ht hl with ⟨t₀, ht₀, hl₀⟩ | hc
  · exact h.present k t₀ line ht₀ hl₀
  · exact h.current line hc

theorem Linked.known_of_step (h : s.Linked) (ho : s.Listening) (hs : Step act s s') {line : LineId}
    (hline : s'.line? line ≠ none) : line ≤ s'.generation := by
  obtain ⟨l', hl'⟩ := Option.ne_none_iff_exists'.mp hline
  rcases hs.line_cases ho h hl' with ⟨l, hl, -⟩ | ⟨rfl, -, -, hc⟩
  · exact Nat.le_trans (h.known line (by rw [hl]; exact nofun)) hs.generation_le
  · rcases hs.current with ⟨hc', -⟩ | ⟨-, ⟨hc', -⟩ | ⟨-, hg, -⟩⟩
    · exact absurd (h.known _ (h.current _ (hc'.symm.trans hc))) (Nat.not_succ_le_self _)
    · exact absurd (hc'.symm.trans hc) nofun
    · exact Nat.le_of_eq hg.symm

theorem Linked.step (h : s.Linked) (ho : s.Listening) (hs : Step act s s') : s'.Linked := by
  have hkept : ∀ {line}, s.line? line ≠ none → s'.line? line ≠ none := hs.line?_ne_none ho h
  refine ⟨fun line l' hl' => ?_, fun line l' hl' => ?_,
    fun k t line ht hl => hkept (h.line_of_task hs ht hl), fun line => h.known_of_step ho hs,
    fun line hc => ?_, fun line l' hl' hopen => ?_, fun line l' hl' hout => ?_⟩
  · rcases hs.line_cases ho h hl' with ⟨l, hl, hshift⟩ | ⟨-, -, ⟨ackTimeout, rfl⟩, -⟩
    · exact (hshift.sound (h.sound line l hl) (h.seated line l hl)).1
    · exact Link.sound_new ackTimeout
  · rcases hs.line_cases ho h hl' with ⟨l, hl, hshift⟩ | ⟨rfl, hnone, ⟨ackTimeout, rfl⟩, -⟩
    · exact (hshift.sound (h.sound line l hl) (h.seated line l hl)).2
    · intro k
      refine ⟨fun hm => absurd hm List.not_mem_nil, fun hsits => ?_⟩
      -- nobody has a send at a line that was not there
      obtain ⟨t, ht, hseat⟩ := Option.bind_eq_some_iff.mp hsits
      exact absurd hnone (h.line_of_task hs ht (Stage.line?_of_seat? hseat))
  · rcases hs.current with ⟨hc', -⟩ | ⟨-, ⟨hc', -⟩ | ⟨hc', -, hnew⟩⟩
    · exact hkept (h.current line (hc'.symm.trans hc))
    · exact absurd (hc'.symm.trans hc) nofun
    · obtain rfl := Option.some.inj (hc'.symm.trans hc)
      exact hnew
  · rcases hs.line_cases ho h hl' with ⟨l, hl, hshift⟩ | ⟨-, -, -, hc⟩
    · have hwas : l.link.closed = false := by
        by_contra hc
        exact absurd (hopen.symm.trans (hshift.closed (Bool.not_eq_false _ ▸ hc))) nofun
      have hused := h.used line l hl hwas
      rcases hs.current with ⟨hc', -⟩ | ⟨hshut, -⟩
      · exact hc'.trans hused
      · exact absurd (hwas.symm.trans (hshut line l hused hl)) nofun
    · exact hc
  · rcases hs.line_cases ho h hl' with ⟨l, hl, hshift⟩ | ⟨-, -, ⟨ackTimeout, rfl⟩, -⟩
    · exact hshift.outlet (h.outlet line l hl) hout
    · exact absurd hout nofun

end

end Session

end NcpHost
