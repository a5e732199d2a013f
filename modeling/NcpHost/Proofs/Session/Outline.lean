import NcpHost.Proofs.Link.Traffic
import NcpHost.Proofs.Session.Loss
import NcpHost.Proofs.Session.Steps
import NcpHost.Session.LifeCycle

/-! A session in outline: the line that it uses, which links are open and have a user, the fragments
at hand and what the hook was told. Tasks leave all of this alone, unless a reset connects again; a
writer may find that the stream of its line failed; and a reader finds its end, or collects what the
link of its line hands on. -/

namespace NcpHost.Session

@[ext]
structure Outline where
  current : Option LineId
  state : State
  fragments : List Frame
  generation : LineId
  keys : List LineId
  link : LineId → Option (Bool × Bool)
  hooks : List Event

def outline (s : Session) : Outline where
  current := s.current
  state := s.state
  fragments := s.fragments
  generation := s.generation
  keys := s.lines.map (·.1)
  link id := (s.line? id).map fun l => (l.link.closed, l.link.inUse)
  hooks := s.hooks

theorem link_outline {s : Session} {id : LineId} {l : Line} (hl : s.line? id = some l) :
    s.outline.link id = some (l.link.closed, l.link.inUse) := by
  simp [outline, hl]

section

variable {s : Session} {id : TaskId} {line : LineId}

theorem outline_log (s : Session) {new : List Event} (h : ∀ e ∈ new, e.isHook = false) :
    { s with log := s.log ++ new }.outline = s.outline := by
  have hnew : new.filter Event.isHook = [] := by simpa using h
  simp [outline, hooks, line?, hnew]

theorem outline_record (s : Session) {e : Event} (h : e.isHook = false) :
    (s.record e).outline = s.outline :=
  s.outline_log (by simpa using h)

@[simp]
theorem outline_finish (s : Session) (id : TaskId) (outcome : Outcome) :
    (s.finish id outcome).outline = s.outline :=
  outline_record (s.dropTask id) rfl

@[simp]
theorem outline_endExchange (s : Session) (id : TaskId) (e : Exchange)
    (result : Except Fault Command) : (s.endExchange id e result).outline = s.outline :=
  outline_finish _ id _

@[simp]
theorem outline_endReset (s : Session) (id : TaskId) (outcome : Outcome) :
    (s.endReset id outcome).outline = s.outline :=
  outline_finish _ id _

theorem keys_modifyLine (s : Session) (id : LineId) (f : Line → Line) :
    (s.modifyLine id f).lines.map (·.1) = s.lines.map (·.1) := by
  unfold modifyLine
  rw [List.map_map]
  refine List.map_congr_left fun e _ => ?_
  dsimp only [Function.comp]
  split <;> rfl

theorem outline_modifyLine_link {f : Line → Line} {link : LineId → Option (Bool × Bool)}
    (hlink : ∀ k, (s.modifyLine line f).outline.link k = link k) :
    (s.modifyLine line f).outline = { s.outline with link := link } := by
  ext1 <;> try rfl
  · exact s.keys_modifyLine line f
  · exact funext hlink

theorem outline_modifyLine {f : Line → Line}
    (hf : ∀ l, s.line? line = some l →
      (f l).link.closed = l.link.closed ∧ (f l).link.inUse = l.link.inUse) :
    (s.modifyLine line f).outline = s.outline := by
  show _ = { s.outline with link := s.outline.link }
  refine outline_modifyLine_link fun k => ?_
  dsimp only [outline]
  rw [line?_modifyLine_at]
  split
  · next hk =>
    subst hk
    cases hl : s.line? k with
    | none => rfl
    | some l => simp [hf l hl]
  · rfl

@[simp]
theorem outline_enterSend (s : Session) (id : TaskId) (line : LineId) (frame : Frame) :
    (s.enterSend id line frame).outline = s.outline :=
  outline_modifyLine fun _ _ => ⟨rfl, rfl⟩

theorem Sends.outline {s' : Session} {result : Option (Except Fault Unit)}
    (h : Sends id line s s' result) : s'.outline = s.outline := by
  cases h with
  | stray => rfl
  | @goes l link _ hl hp =>
    have hlink : (s.modifyLine line fun l => { l with link := link }).outline = s.outline := by
      refine outline_modifyLine fun l' hl' => ?_
      obtain rfl : l = l' := Option.some.inj (hl.symm.trans hl')
      exact ⟨hp.keeps.1, hp.stream.2.1⟩
    refine (outline_log _ fun e he => ?_).trans hlink
    obtain ⟨bytes, -, rfl⟩ := List.mem_map.mp he
    rfl

@[simp]
theorem outline_proceedSend (s : Session) (id : TaskId) (line : LineId) :
    (s.proceedSend id line).1.outline = s.outline := by
  obtain ⟨s', agenda, -, hs, heq⟩ := s.sends_proceedSend id line
  rw [heq]
  exact hs.outline

@[simp]
theorem outline_listen (s : Session) (id : TaskId) (e : Exchange) :
    (s.listen id e).outline = s.outline := by
  unfold listen
  split
  · exact outline_endExchange s id e _
  · exact outline_endExchange s id e _
  · split
    · exact outline_endExchange s id e _
    · rfl

@[simp]
theorem outline_sendAll (s : Session) (id : TaskId) (e : Exchange) (frames : List Frame) :
    (s.sendAll id e frames).outline = s.outline := by
  induction frames generalizing s with
  | nil => exact outline_listen s id e
  | cons frame rest ih =>
    have hsent := outline_proceedSend (s.enterSend id e.line frame) id e.line
    rw [outline_enterSend] at hsent
    unfold sendAll
    generalize (s.enterSend id e.line frame).proceedSend id e.line = sent at hsent
    split
    · exact hsent
    · exact (outline_endExchange _ id e _).trans hsent
    · exact (ih _).trans hsent

@[simp]
theorem outline_resumeSending (s : Session) (id : TaskId) (e : Exchange) (unsent : List Frame) :
    (s.resumeSending id e unsent).outline = s.outline := by
  have hsent := outline_proceedSend s id e.line
  unfold resumeSending
  generalize s.proceedSend id e.line = sent at hsent
  split
  · exact hsent
  · exact (outline_endExchange _ id e _).trans hsent
  · exact (outline_sendAll _ id e unsent).trans hsent

@[simp]
theorem outline_resumeAnswering (s : Session) (id : TaskId) (e : Exchange) (deadline : Nat) :
    (s.resumeAnswering id e deadline).outline = s.outline := by
  unfold resumeAnswering
  split
  · exact outline_endExchange s id e _
  · exact outline_endExchange s id e _
  · split
    · exact outline_endExchange s id e _
    · rfl

@[simp]
theorem outline_resumeGated (s : Session) (id : TaskId) (e : Exchange) (frames : List Frame) :
    (s.resumeGated id e frames).outline = s.outline := by
  unfold resumeGated
  split
  · exact outline_sendAll s id e frames
  · rfl

@[simp]
theorem outline_startRequest (s : Session) (id : TaskId) (purpose : Purpose) (c : Command)
    (timeout : Nat) : (s.startRequest id purpose c timeout).outline = s.outline := by
  unfold startRequest
  split
  · exact outline_finish s id _
  · dsimp only
    split
    · exact outline_sendAll _ id _ _
    · split
      · exact outline_sendAll _ id _ _
      · rfl

@[simp]
theorem outline_startVersion (s : Session) (id : TaskId) :
    (s.startVersion id).outline = s.outline := by
  unfold startVersion
  dsimp only
  split
  · exact outline_finish _ id _
  · exact outline_startRequest _ id .version _ _

@[simp]
theorem outline_resumeWaiting (s : Session) (id : TaskId) (listener : ListenerId) :
    (s.resumeWaiting id listener).outline = s.outline := by
  unfold resumeWaiting
  split
  · exact outline_finish _ id _
  · exact outline_finish _ id _
  · rfl

@[simp]
theorem outline_resetSent (s : Session) (id : TaskId) (wait lossSeen : Bool) :
    (s.resetSent id wait lossSeen).outline = s.outline := by
  unfold resetSent
  split
  · exact outline_endReset s id _
  · split <;> rfl

@[simp]
theorem outline_resumeResetSending (s : Session) (id : TaskId) (line : LineId)
    (wait lossSeen : Bool) :
    (s.resumeResetSending id line wait lossSeen).outline = s.outline := by
  have hsent := outline_proceedSend s id line
  unfold resumeResetSending
  generalize s.proceedSend id line = sent at hsent
  split
  · exact hsent
  · exact (outline_endReset _ id _).trans hsent
  · exact (outline_resetSent _ id wait lossSeen).trans hsent

@[simp]
theorem outline_sendReset (s : Session) (id : TaskId) (request : Frame) (wait : Bool) :
    (s.sendReset id request wait).outline = s.outline := by
  unfold sendReset
  split
  · exact outline_endReset s id _
  · next line _ =>
    exact (outline_resumeResetSending _ id line wait false).trans
      (outline_enterSend s id line request)

@[simp]
theorem outline_resumeResetGated (s : Session) (id : TaskId) (request : Frame) (wait : Bool) :
    (s.resumeResetGated id request wait).outline = s.outline := by
  unfold resumeResetGated
  split
  · exact outline_sendReset s id request wait
  · rfl

@[simp]
theorem outline_startReset (s : Session) (id : TaskId) (option : Standard.ResetOption)
    (wait : Bool) : (s.startReset id option wait).outline = s.outline := by
  unfold startReset
  dsimp only
  split
  · exact outline_finish _ id _
  · split
    · exact outline_sendReset _ id _ wait
    · rfl

@[simp]
theorem outline_resumeResetWaiting (s : Session) (id : TaskId) (deadline : Nat)
    (lossSeen : Bool) : (s.resumeResetWaiting id deadline lossSeen).outline = s.outline := by
  unfold resumeResetWaiting
  split
  · rfl
  · split
    · exact outline_endReset s id _
    · rfl

theorem outline_endCallback (s : Session) (id : TaskId) (deed : Deed) (command : String) :
    (s.endCallback id deed command).outline = s.outline := by
  obtain ⟨warnings, heq⟩ := s.endCallback_eq id deed command
  rw [heq]
  exact outline_record (s.dropTask id) rfl

@[simp]
theorem outline_startJob (s : Session) (id : TaskId) (job : Job) :
    (s.startJob id job).outline = s.outline := by
  cases job with
  | request c timeout => exact outline_startRequest s id .response c timeout
  | version => exact outline_startVersion s id
  | reset option wait => exact outline_startReset s id option wait
  | wait listener => exact outline_resumeWaiting s id listener
  | callback deed command =>
    unfold startJob
    dsimp only
    split
    · exact outline_endCallback s id deed command
    · rfl

theorem outline_resumeReconnecting (s : Session) (id : TaskId) (attempt due : Nat) :
    (s.resumeReconnecting id attempt due).outline = s.outline
      ∨ (s.resumeReconnecting id attempt due).outline = s.connect.1.outline := by
  unfold resumeReconnecting
  split
  · exact Or.inl rfl
  · refine Or.inr ?_
    split
    · next h =>
      rw [h]
      exact outline_endReset _ id _
    · next h =>
      rw [h]
      split
      · exact outline_endReset _ id _
      · rfl

theorem outline_turnTask (s : Session) (id : TaskId) :
    (s.turnTask id).outline = s.outline ∨ (s.turnTask id).outline = s.connect.1.outline := by
  unfold turnTask
  cases s.task? id with
  | none => exact Or.inl rfl
  | some t =>
    cases t with
    | reconnecting attempt due => exact outline_resumeReconnecting s id attempt due
    | dozing deed command due =>
      dsimp only
      split
      · exact Or.inl (outline_endCallback s id deed command)
      · exact Or.inl rfl
    | _ => simp

@[simp]
theorem outline_abort (s : Session) (id : TaskId) : (s.abort id).outline = s.outline := by
  unfold abort
  split
  · rfl
  · next t _ =>
    dsimp only
    cases t.line? with
    | none => cases t.listener? <;> rfl
    | some line =>
      have hlink : (s.modifyLine line fun l => { l with link := l.link.abort id }).outline
          = s.outline := outline_modifyLine fun _ _ => ⟨rfl, rfl⟩
      cases t.listener? <;> exact hlink

end

section

variable {s : Session} {id : LineId}

@[simp]
theorem outline_stopReading (s : Session) (id : LineId) :
    (s.modifyLine id Line.stopReading).outline = s.outline :=
  outline_modifyLine fun _ _ => ⟨rfl, rfl⟩

@[simp]
theorem outline_stopWriting (s : Session) (id : LineId) :
    (s.modifyLine id Line.stopWriting).outline = s.outline :=
  outline_modifyLine fun _ _ => ⟨rfl, rfl⟩

@[simp]
theorem outline_invoke (s : Session) (callback : Callback Deed) (c : Command) :
    (s.invoke callback c).1.outline = s.outline := by
  cases callback with
  | inline deed =>
    obtain ⟨warnings, heq⟩ := s.invoke_inline deed c
    rw [heq]
    exact outline_record s rfl
  | spawned deed =>
    unfold invoke
    dsimp only
    split
    · exact outline_record s rfl
    · rfl

@[simp]
theorem outline_invokeAll (s : Session) (c : Command) (callbacks : List (Callback Deed)) :
    (s.invokeAll c callbacks).1.outline = s.outline := by
  induction callbacks generalizing s with
  | nil => rfl
  | cons callback rest ih =>
    have hone := outline_invoke s callback c
    rw [invokeAll]
    split
    · next h => rwa [h] at hone
    · next s' h =>
      rw [h] at hone
      exact (ih s').trans hone

theorem outline_receiveFrame (s : Session) (frame : Frame) :
    (s.receiveFrame frame).1.outline
      = { s.outline with fragments := (collect s.fragments frame).1 } := by
  unfold receiveFrame
  dsimp only
  split
  · next c _ => exact (outline_invokeAll _ c _).trans (outline_record _ rfl)
  · rfl

theorem outline_acceptFrame {l : Line} (hl : s.line? id = some l) (frame : Frame) :
    (s.acceptFrame id l frame).1.outline
      = { s.outline with
          fragments := (collectAll s.fragments (l.link.accept frame).2.toList).1 } := by
  have hlink : (s.modifyLine id fun l' => { l' with link := (l.link.accept frame).1 }).outline
      = s.outline := by
    refine outline_modifyLine fun l' hl' => ?_
    obtain rfl : l = l' := Option.some.inj (hl.symm.trans hl')
    exact ⟨(l.link.accept_keeps frame).2.1, l.link.inUse_accept frame⟩
  unfold acceptFrame
  dsimp only
  cases (l.link.accept frame).2 with
  | none => exact hlink
  | some f =>
    rw [outline_receiveFrame, hlink]
    rfl

theorem outline_acceptFrames {l : Link} (hl : s.link? id = some l) (frames : List Frame) :
    ∃ handed, handed <+: (l.acceptAll frames).2 ∧ (s.acceptFrames id frames).outline
      = { s.outline with fragments := (collectAll s.fragments handed).1 } := by
  induction frames generalizing s l with
  | nil => exact ⟨[], List.nil_prefix, rfl⟩
  | cons frame rest ih =>
    obtain ⟨line, hline, rfl⟩ := Option.map_eq_some_iff.mp hl
    have hone := outline_acceptFrame hline frame
    have hlink := (acceptFrame_took hline frame).2
    rw [acceptFrames_cons hline, Link.acceptAll_cons]
    generalize s.acceptFrame id line frame = accepted at hone hlink
    split
    · refine ⟨(line.link.accept frame).2.toList, List.prefix_append _ _, ?_⟩
      exact (outline_stopReading accepted.1.wakeRunnable id).trans hone
    · have hlink' : accepted.1.wakeRunnable.link? id = some (line.link.accept frame).1 := hlink
      obtain ⟨handed, hprefix, hrest⟩ := ih hlink'
      refine ⟨(line.link.accept frame).2.toList ++ handed,
        (List.prefix_append_right_inj _).mpr hprefix, ?_⟩
      rw [hrest, collectAll_append]
      show { accepted.1.outline with
        fragments := (collectAll accepted.1.outline.fragments handed).1 } = _
      rw [hone]

theorem outline_receiveBytes {l : Line} (hl : s.line? id = some l) (bytes : List UInt8) :
    ∃ handed, handed <+: (l.link.receive bytes).2 ∧ (s.receiveBytes id bytes).outline
      = { s.outline with fragments := (collectAll s.fragments handed).1 } := by
  let read := s.modifyLine id fun l' => { l' with link := (l.link.extract bytes).1 }
  have hread : read.outline = s.outline := by
    refine outline_modifyLine fun l' hl' => ?_
    obtain rfl : l = l' := Option.some.inj (hl.symm.trans hl')
    exact ⟨rfl, rfl⟩
  have hlink : read.link? id = some (l.link.extract bytes).1 := link?_modifyLine hl _
  obtain ⟨handed, hprefix, heq⟩ := outline_acceptFrames hlink (l.link.extract bytes).2
  refine ⟨handed, hprefix, ?_⟩
  unfold receiveBytes
  rw [hl]
  exact heq.trans (by rw [hread]; rfl)

inductive ReaderTurn (s : Session) (id : LineId) : Outline → Prop where
  | nothing : ReaderTurn s id s.outline
  | loses (cause : Option Fault) : ReaderTurn s id (s.loseLine id cause).outline
  | collects {l : Line} {handed : List Frame} : s.line? id = some l →
    handed <+: (l.link.receive l.inbound).2 →
    ReaderTurn s id { s.outline with fragments := (collectAll s.fragments handed).1 }

theorem readerTurn (s : Session) (id : LineId) : ReaderTurn s id (s.turnReader id).outline := by
  unfold turnReader
  split
  · exact .nothing
  · next l hl =>
    split
    · exact .nothing
    · split
      · rw [outline_stopReading]
        exact .nothing
      · split
        · rw [outline_stopReading]
          exact .loses _
        · split
          · let emptied := s.modifyLine id fun l => { l with inbound := [] }
            have hemptied : emptied.outline = s.outline := outline_modifyLine fun _ _ => ⟨rfl, rfl⟩
            have hl' : emptied.line? id = some { l with inbound := [] } :=
              line?_modifyLine_self hl _
            obtain ⟨handed, hprefix, heq⟩ := outline_receiveBytes hl' l.inbound
            rw [hemptied] at heq
            rw [heq]
            exact .collects hl hprefix
          · rw [outline_stopReading]
            exact .loses _

theorem outline_turnWriter (s : Session) (id : LineId) :
    (s.turnWriter id).outline = s.outline
      ∨ ∃ cause, (s.turnWriter id).outline = (s.loseLine id cause).outline := by
  unfold turnWriter
  split
  · exact Or.inl rfl
  · split
    · exact Or.inl rfl
    · split
      · dsimp only
        rw [outline_stopWriting]
        split
        · exact Or.inr ⟨_, rfl⟩
        · exact Or.inl rfl
      · have hflushed : (s.modifyLine id Line.flush).outline = s.outline :=
          outline_modifyLine fun _ _ => ⟨rfl, rfl⟩
        dsimp only
        split
        · exact Or.inl hflushed
        · rw [outline_stopWriting]
          exact Or.inl hflushed

end

end NcpHost.Session
