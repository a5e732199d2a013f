import NcpHost.Proofs.Session.Reception

/-! A session that takes in bytes in chunks ends up as if it had been given the frames that they
make, with the bytes left over put in the buffer at the end. Nothing but the link reads its buffer:
neither what becomes of a frame nor who is woken depends on it. -/

namespace NcpHost.Session

def setLink (s : Session) (id : LineId) (link : Link) : Session :=
  s.modifyLine id fun l => { l with link := link }

def setBuffer (s : Session) (id : LineId) (buffer : List UInt8) : Session :=
  s.modifyLine id fun l => { l with link := l.link.withBuffer buffer }

section

variable {s : Session} {id : LineId}

theorem setLink_setLink (s : Session) (id : LineId) (link link' : Link) :
    (s.setLink id link).setLink id link' = s.setLink id link' :=
  modifyLine_modifyLine s id _ _

theorem setLink_setBuffer (s : Session) (id : LineId) (buffer : List UInt8) (link : Link) :
    (s.setBuffer id buffer).setLink id link = s.setLink id link :=
  modifyLine_modifyLine s id _ _

theorem setBuffer_setLink (s : Session) (id : LineId) (link : Link) (buffer : List UInt8) :
    (s.setLink id link).setBuffer id buffer = s.setLink id (link.withBuffer buffer) :=
  modifyLine_modifyLine s id _ _

theorem setBuffer_setBuffer (s : Session) (id : LineId) (buffer buffer' : List UInt8) :
    (s.setBuffer id buffer).setBuffer id buffer' = s.setBuffer id buffer' :=
  modifyLine_modifyLine s id _ _

theorem link?_setLink {l : Link} (hl : s.link? id = some l) (link : Link) :
    (s.setLink id link).link? id = some link := by
  obtain ⟨line, hline, rfl⟩ := Option.map_eq_some_iff.mp hl
  exact link?_modifyLine hline _

theorem link?_setBuffer {l : Link} (hl : s.link? id = some l) (buffer : List UInt8) :
    (s.setBuffer id buffer).link? id = some (l.withBuffer buffer) := by
  obtain ⟨line, hline, rfl⟩ := Option.map_eq_some_iff.mp hl
  exact link?_modifyLine hline _

theorem invokeAll_modifyLine (s : Session) (id : LineId) (f : Line → Line) (c : Command)
    (callbacks : List (Callback Deed)) :
    (s.modifyLine id f).invokeAll c callbacks
      = ((s.invokeAll c callbacks).1.modifyLine id f, (s.invokeAll c callbacks).2) := by
  induction callbacks generalizing s with
  | nil => rfl
  | cons callback rest ih =>
    have hone : (s.modifyLine id f).invoke callback c
        = ((s.invoke callback c).1.modifyLine id f, (s.invoke callback c).2) := by
      cases callback with
      | inline deed => cases hend : deed.ending <;> simp only [invoke, hend] <;> rfl
      | spawned deed => cases hcrash : deed.crashesAtCall <;> simp only [invoke, hcrash] <;> rfl
    rw [invokeAll, invokeAll, hone]
    cases s.invoke callback c with
    | mk s' escaped =>
      cases escaped with
      | true => rfl
      | false => exact ih s'

theorem receiveFrame_modifyLine (s : Session) (id : LineId) (f : Line → Line) (frame : Frame) :
    (s.modifyLine id f).receiveFrame frame
      = ((s.receiveFrame frame).1.modifyLine id f, (s.receiveFrame frame).2) := by
  have hc : (s.modifyLine id f).catalog = s.catalog := rfl
  have hf : (s.modifyLine id f).fragments = s.fragments := rfl
  simp only [receiveFrame, hc, hf]
  split
  · next c _ =>
    let offered := record { s with fragments := (collect s.fragments frame).1
                                   registry := (s.registry.dispatch c).1 } (.dispatched c)
    exact invokeAll_modifyLine offered id f c (s.registry.dispatch c).2.callbacks
  · rfl

theorem acceptFrames_of_none (h : s.line? id = none) (frames : List Frame) :
    s.acceptFrames id frames = s := by
  cases frames with
  | nil => rfl
  | cons => rw [acceptFrames, h]

theorem runnable_setBuffer (s : Session) (id : LineId) (buffer : List UInt8) :
    (s.setBuffer id buffer).runnable = s.runnable := by
  have hsend : ∀ k line, (s.setBuffer id buffer).canSend k line = s.canSend k line := by
    intro k line
    rw [canSend, setBuffer, line?_modifyLine_at, canSend]
    split
    · rw [Option.map_map]
      rfl
    · rfl
  have hproceed : ∀ k t, (s.setBuffer id buffer).canProceed k t = s.canProceed k t := by
    intro k t
    cases t with
    | sending e _ => exact hsend k e.line
    | resetSending line _ _ => exact hsend k line
    | _ => rfl
  have htasks : (s.setBuffer id buffer).tasks = s.tasks := rfl
  have hholds : ∀ k, (s.setBuffer id buffer).holds k = s.holds k := fun _ => rfl
  simp only [runnable, hproceed, htasks, hholds]
  congr 1
  rw [setBuffer, modifyLine, List.flatMap_map]
  refine congrArg (List.flatMap · s.lines) (funext fun e => ?_)
  dsimp only
  split <;> rfl

theorem wakeRunnable_setBuffer (s : Session) (id : LineId) (buffer : List UInt8) :
    (s.setBuffer id buffer).wakeRunnable = s.wakeRunnable.setBuffer id buffer := by
  rw [wakeRunnable, runnable_setBuffer]
  rfl

theorem acceptFrame_setBuffer (s : Session) (id : LineId) (buffer : List UInt8) (l : Line)
    (frame : Frame) :
    (s.setBuffer id buffer).acceptFrame id { l with link := l.link.withBuffer buffer } frame
      = ((s.acceptFrame id l frame).1.setBuffer id buffer, (s.acceptFrame id l frame).2) := by
  have hlink := (setLink_setBuffer s id buffer ((l.link.accept frame).1.withBuffer buffer)).trans
    (setBuffer_setLink s id (l.link.accept frame).1 buffer).symm
  simp only [setLink] at hlink
  simp only [acceptFrame, Link.accept_withBuffer, hlink]
  cases (l.link.accept frame).2 with
  | none => rfl
  | some f => exact receiveFrame_modifyLine _ id _ f

theorem acceptFrames_setBuffer (s : Session) (id : LineId) (buffer : List UInt8)
    (frames : List Frame) :
    (s.setBuffer id buffer).acceptFrames id frames
      = (s.acceptFrames id frames).setBuffer id buffer := by
  induction frames generalizing s with
  | nil => rfl
  | cons frame rest ih =>
    cases hl : s.line? id with
    | none =>
      have hl' : (s.setBuffer id buffer).line? id = none := by
        rw [setBuffer, line?_modifyLine, hl, Option.map_none]
      rw [acceptFrames_of_none hl, acceptFrames_of_none hl']
    | some l =>
      have hl' := line?_modifyLine_self hl fun l => { l with link := l.link.withBuffer buffer }
      rw [acceptFrames_cons hl, acceptFrames_cons (s := s.setBuffer id buffer) hl',
        acceptFrame_setBuffer]
      dsimp only
      rw [wakeRunnable_setBuffer]
      split
      · rw [setBuffer, modifyLine_modifyLine, setBuffer, modifyLine_modifyLine]
        rfl
      · exact ih _

def OneLink (s : Session) (id : LineId) : Prop :=
  ∀ a b, (id, a) ∈ s.lines → (id, b) ∈ s.lines → a.link = b.link

theorem oneLink_modifyLine {f : Line → Line}
    (h : ∀ a b, (id, a) ∈ s.lines → (id, b) ∈ s.lines → (f a).link = (f b).link) :
    (s.modifyLine id f).OneLink id := by
  have hmem : ∀ a, (id, a) ∈ (s.modifyLine id f).lines → ∃ l, (id, l) ∈ s.lines ∧ a = f l := by
    intro a ha
    obtain ⟨⟨k, l⟩, hm, heq⟩ := List.mem_map.mp ha
    dsimp only at heq
    split at heq
    · next hk => exact ⟨l, hk ▸ hm, (Prod.mk.inj heq).2.symm⟩
    · next hk => exact absurd (Prod.mk.inj heq).1 hk
  intro a b ha hb
  obtain ⟨l, hl, rfl⟩ := hmem a ha
  obtain ⟨l', hl', rfl⟩ := hmem b hb
  exact h l l' hl hl'

theorem oneLink_setLink (s : Session) (id : LineId) (link : Link) :
    (s.setLink id link).OneLink id :=
  oneLink_modifyLine fun _ _ _ _ => rfl

theorem OneLink.setLink_eq {l : Link} (h : s.OneLink id) (hl : s.link? id = some l) :
    s.setLink id l = s := by
  obtain ⟨line, hline, rfl⟩ := Option.map_eq_some_iff.mp hl
  have hlines : (s.setLink id line.link).lines = s.lines := by
    refine (List.map_congr_left fun e he => ?_).trans (List.map_id s.lines)
    obtain ⟨k, l⟩ := e
    dsimp only
    split
    · next hk =>
      subst hk
      rw [h line l (Keyed.mem_of_lookup hline) he]
      rfl
    · rfl
  have hset : s.setLink id line.link = { s with lines := (s.setLink id line.link).lines } := rfl
  rw [hset, hlines]

theorem oneLink_acceptFrames (h : s.OneLink id) (frames : List Frame) :
    (s.acceptFrames id frames).OneLink id := by
  induction frames generalizing s with
  | nil => exact h
  | cons frame rest ih =>
    cases hl : s.line? id with
    | none =>
      rw [acceptFrames_of_none hl]
      exact h
    | some l =>
      have hone : (s.acceptFrame id l frame).1.OneLink id := by
        have hset := oneLink_setLink s id (l.link.accept frame).1
        rw [acceptFrame]
        cases (l.link.accept frame).2 with
        | none => exact hset
        | some f =>
          rw [OneLink, (receiveFrame_took _ f).2]
          exact hset
      rw [acceptFrames_cons hl]
      split
      · exact oneLink_modifyLine hone
      · exact ih hone

theorem acceptFrames_append {before after : List Frame} (h : CompleteLast (before ++ after))
    (s : Session) (id : LineId) :
    s.acceptFrames id (before ++ after) = (s.acceptFrames id before).acceptFrames id after := by
  by_cases hafter : after = []
  · rw [hafter, List.append_nil]
    rfl
  rw [CompleteLast, List.dropLast_append_of_ne_nil hafter] at h
  induction before generalizing s with
  | nil => rfl
  | cons frame rest ih =>
    cases hl : s.line? id with
    | none => simp only [acceptFrames_of_none hl]
    | some l =>
      have hfirst : frame.header.flags.isLast = false := h frame List.mem_cons_self
      rw [List.cons_append, acceptFrames_cons hl, acceptFrames_cons hl,
        acceptFrame_of_not_last hfirst, if_neg Bool.false_ne_true, if_neg Bool.false_ne_true]
      exact ih (fun f hm => h f (List.mem_cons_of_mem _ hm)) _

theorem receiveBytes_eq {l : Link} (hl : s.link? id = some l) (bytes : List UInt8) :
    s.receiveBytes id bytes
      = ((s.setLink id l).acceptFrames id (Stream.drain (l.buffer ++ bytes)).1).setBuffer id
          (Stream.drain (l.buffer ++ bytes)).2 := by
  obtain ⟨line, hline, rfl⟩ := Option.map_eq_some_iff.mp hl
  rw [← acceptFrames_setBuffer, setBuffer_setLink]
  simp only [receiveBytes, hline]
  rfl

theorem OneLink.receiveAll_eq {chunks : List (List UInt8)} {s : Session} {id : LineId} {l : Link}
    (hone : s.OneLink id) (hl : s.link? id = some l)
    (h : CompleteLast (Stream.feed l.buffer chunks).1) :
    s.receiveAll id chunks
      = (s.acceptFrames id (Stream.feed l.buffer chunks).1).setBuffer id
          (Stream.feed l.buffer chunks).2 := by
  induction chunks generalizing s l with
  | nil =>
    rw [Stream.feed, ← hone.setLink_eq hl]
    exact (setBuffer_setLink s id l l.buffer).symm
  | cons chunk rest ih =>
    let now := Stream.drain (l.buffer ++ chunk)
    let later := Stream.feed now.2 rest
    have hfeed : Stream.feed l.buffer (chunk :: rest) = (now.1 ++ later.1, later.2) := rfl
    rw [hfeed] at h ⊢
    obtain ⟨hnow, hlater⟩ := h.split
    let s' := s.acceptFrames id now.1
    have hbytes : s.receiveAll id (chunk :: rest) = (s'.setBuffer id now.2).receiveAll id rest := by
      rw [receiveAll, List.foldl_cons, receiveBytes_eq hl, hone.setLink_eq hl]
      rfl
    have hlink : (s'.setBuffer id now.2).link? id = some ((l.acceptAll now.1).1.withBuffer now.2) :=
      link?_setBuffer (acceptFrames_took hnow hl).2 now.2
    have hone' : (s'.setBuffer id now.2).OneLink id :=
      oneLink_modifyLine fun a b ha hb => by
        rw [oneLink_acceptFrames hone now.1 a b ha hb]
    rw [hbytes, ih hone' hlink hlater, acceptFrames_setBuffer, setBuffer_setBuffer,
      acceptFrames_append h]
    rfl

theorem receiveAll_whole {frames : List Frame}
    (h : ∀ f ∈ frames, f.WellFormed ∧ f.header.frameType = FrameHeader.packetType)
    (hlast : CompleteLast frames) (hne : frames ≠ []) {chunks : List (List UInt8)}
    (hc : chunks.flatten = frames.flatMap Frame.encode) {l : Link} (hl : s.link? id = some l)
    (hbuffer : l.buffer = []) :
    s.receiveAll id chunks = ((s.setLink id l).acceptFrames id frames).setBuffer id [] := by
  have hfeed : Stream.feed l.buffer chunks = (frames, []) := by
    rw [hbuffer]
    exact Stream.feed_whole h (Stream.look_of_short (by decide)) hc
  have hset := link?_setLink hl l
  have hstart : s.receiveAll id chunks = (s.setLink id l).receiveAll id chunks := by
    cases chunks with
    | nil => exact absurd (Prod.mk.inj hfeed).1.symm hne
    | cons chunk rest =>
      rw [receiveAll, List.foldl_cons, receiveBytes_eq hl, receiveAll, List.foldl_cons,
        receiveBytes_eq hset, setLink_setLink]
  rw [hstart, (oneLink_setLink s id l).receiveAll_eq hset (by rwa [hfeed]), hfeed]

end

end NcpHost.Session
