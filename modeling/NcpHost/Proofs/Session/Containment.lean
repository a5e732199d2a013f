import NcpHost.Proofs.Registry.Versions
import NcpHost.Proofs.Session.Custody

/-! What a callback can do to others. Callbacks are called one after the other, in the order in which they
were registered, and however they end, that stays with them: those that are run at once are guarded, and
those with a task of their own end with that task. But nothing guards the call that makes the task. A
callback that crashes there takes along those behind it, the frames behind the command, and the reader. -/

namespace NcpHost.Session

section

variable {s s' s'' : Session} {act : Act} {id : LineId} {l : Line} {c : Command}
  {callbacks : List (Callback Deed)} {given : List (Listener Deed)}

/-- Whatever a session does to its registry is made of acts on it. -/
theorem Step.works (h : Step act s s') : ∃ acts, s'.registry = s.registry.run acts := by
  have hreleased : ∀ k, s'.registry = s.registry.release k →
      ∃ acts, s'.registry = s.registry.run acts := fun k hr => ⟨[.unregister k, .forget k], hr⟩
  cases h with
  | ripple hr =>
    cases hr with
    | quiet hq => exact ⟨[], hq.registry⟩
    | note | upkeep | spawn => exact ⟨[], rfl⟩
  | switch _ hs =>
    cases hs with
    | shut | stopWriting | addLine | unuse | noticeLoss => exact ⟨[], rfl⟩
    | clear => exact ⟨[.clear], rfl⟩
  | start => exact ⟨[], rfl⟩
  | await patterns => exact ⟨[.register ⟨patterns, .oneShot⟩], rfl⟩
  | subscribe patterns callback => exact ⟨[.register ⟨patterns, .indication callback⟩], rfl⟩
  | remove k => exact ⟨[.unregister k], rfl⟩
  | cancel k => exact ⟨[.unregister k, .closeSlot k], rfl⟩
  | release k => exact hreleased k rfl
  | move _ hm =>
    cases hm.own with
    | without _ _ hr =>
      rcases hr with hr | ⟨_, listener, _, _, hr⟩
      · exact ⟨[], hr⟩
      · exact hreleased listener hr
    | begins _ _ _ _ _ hr => exact ⟨[.register _], hr⟩
    | goesOn _ _ hr => exact ⟨[], hr⟩
    | @ends e _ _ _ _ hr => exact hreleased e.listener hr
  | abort k =>
    rcases s.abort_cases k with ⟨-, heq⟩ | ⟨t, -, ha⟩
    · exact ⟨[], congrArg Session.registry heq⟩
    · have hr := ha.registry
      split at hr
      · next listener _ => exact hreleased listener hr
      · exact ⟨[], hr⟩
  | offer _ c => exact ⟨[.dispatch c], rfl⟩

theorem Steps.works (h : Steps act s s') : ∃ acts, s'.registry = s.registry.run acts := by
  induction h with
  | refl => exact ⟨[], rfl⟩
  | tail _ hstep ih =>
    obtain ⟨before, hbefore⟩ := ih
    obtain ⟨after, hafter⟩ := hstep.works
    exact ⟨before ++ after, by rw [hafter, hbefore, Registry.run_append]⟩

theorem registry_happenAll (config : Config) (catalog : Catalog) (deviceOpens : Bool)
    (happenings : List Happening) :
    ∃ acts, ((new config catalog deviceOpens).happenAll happenings).registry
      = Registry.empty.run acts := by
  induction happenings using List.reverseRecOn with
  | nil => exact ⟨[], rfl⟩
  | append_singleton earlier h ih =>
    obtain ⟨before, hbefore⟩ := ih
    have hsound := ((lawful_new config catalog deviceOpens).happenAll earlier).outline
    obtain ⟨after, hafter⟩ := (happen_steps hsound h).works
    refine ⟨before ++ after, ?_⟩
    rw [happenAll_concat, hafter, hbefore, Registry.run_append]

/-- However the callback ends, that stays with it. -/
def contained : Callback Deed → Bool
  | .inline _ => true
  | .spawned deed => !deed.crashesAtCall

/-- The callbacks that are called of some in turn: up to one that lets a crash escape. -/
def reached : List (Callback Deed) → List (Callback Deed)
  | [] => []
  | callback :: rest => callback :: if contained callback then reached rest else []

/-- What is written down when a callback is called. One that has a task has not run yet. -/
def note? (c : Command) : Callback Deed → Option Event
  | .inline deed => some (.callback deed.name c.render)
  | .spawned deed => if deed.crashesAtCall then some (.callback deed.name c.render) else none

def job? (c : Command) : Callback Deed → Option Job
  | .inline _ => none
  | .spawned deed => if deed.crashesAtCall then none else some (.callback deed c.render)

def warning? (c : Command) : Callback Deed → Option Warning
  | .inline deed =>
    match deed.ending with
    | .returns => none
    | .fails => some (.failed c.render)
    | .crashes => some (.crashed c.render)
  | .spawned _ => none

def startedFrom (next : TaskId) (jobs : List Job) : List (TaskId × Stage) :=
  (jobs.zipIdx next).map fun (job, id) => (id, .fresh job)

structure Leaves (events : List Event) (jobs : List Job) (warnings : List Warning)
    (s s' : Session) : Prop where
  log : s'.log = s.log ++ events
  tasks : s'.tasks = s.tasks ++ startedFrom s.nextTask jobs
  nextTask : s'.nextTask = s.nextTask + jobs.length
  warnings : s'.warnings = s.warnings ++ warnings

theorem startedFrom_append (next : TaskId) (jobs more : List Job) :
    startedFrom next (jobs ++ more)
      = startedFrom next jobs ++ startedFrom (next + jobs.length) more := by
  rw [startedFrom, List.zipIdx_append, List.map_append]
  rfl

theorem Leaves.append {events events' : List Event} {jobs jobs' : List Job}
    {warnings warnings' : List Warning} (h : Leaves events jobs warnings s s')
    (h' : Leaves events' jobs' warnings' s' s'') :
    Leaves (events ++ events') (jobs ++ jobs') (warnings ++ warnings') s s'' := by
  refine ⟨?_, ?_, ?_, ?_⟩
  · rw [h'.log, h.log, List.append_assoc]
  · rw [h'.tasks, h.tasks, h.nextTask, startedFrom_append, List.append_assoc]
  · rw [h'.nextTask, h.nextTask, List.length_append, Nat.add_assoc]
  · rw [h'.warnings, h.warnings, List.append_assoc]

theorem leaves_nothing (hlog : s'.log = s.log) (htasks : s'.tasks = s.tasks)
    (hnext : s'.nextTask = s.nextTask) (hwarnings : s'.warnings = s.warnings) :
    Leaves [] [] [] s s' :=
  ⟨hlog.trans (List.append_nil _).symm, htasks.trans (List.append_nil _).symm, hnext,
    hwarnings.trans (List.append_nil _).symm⟩

theorem leaves_record (s : Session) (e : Event) : Leaves [e] [] [] s (s.record e) :=
  ⟨rfl, (List.append_nil _).symm, rfl, (List.append_nil _).symm⟩

theorem leaves_warn (s : Session) (w : Warning) : Leaves [] [] [w] s (s.warn w) :=
  ⟨(List.append_nil _).symm, (List.append_nil _).symm, rfl, rfl⟩

theorem leaves_spawn (s : Session) (job : Job) : Leaves [] [job] [] s (s.spawn job).1 :=
  ⟨(List.append_nil _).symm, rfl, rfl, (List.append_nil _).symm⟩

theorem leaves_invoke (s : Session) (callback : Callback Deed) (c : Command) :
    Leaves (note? c callback).toList (job? c callback).toList (warning? c callback).toList s
        (s.invoke callback c).1
      ∧ (s.invoke callback c).2 = !contained callback := by
  cases callback with
  | inline deed =>
    let called := s.record (.callback deed.name c.render)
    have hcalled : Leaves [.callback deed.name c.render] [] [] s called := leaves_record s _
    rw [note?, job?, warning?, contained, invoke]
    cases deed.ending with
    | returns => exact ⟨hcalled, rfl⟩
    | fails => exact ⟨hcalled.append (leaves_warn called _), rfl⟩
    | crashes => exact ⟨hcalled.append (leaves_warn called _), rfl⟩
  | spawned deed =>
    rw [note?, job?, warning?, contained, invoke]
    cases deed.crashesAtCall with
    | true => exact ⟨leaves_record s _, rfl⟩
    | false => exact ⟨leaves_spawn s _, rfl⟩

theorem filterMap_cons_toList {α β : Type} (f : α → Option β) (a : α) (rest : List α) :
    (a :: rest).filterMap f = (f a).toList ++ rest.filterMap f := by
  rw [List.filterMap_cons]
  cases f a <;> rfl

theorem leaves_invokeAll (s : Session) (c : Command) (callbacks : List (Callback Deed)) :
    Leaves ((reached callbacks).filterMap (note? c)) ((reached callbacks).filterMap (job? c))
        ((reached callbacks).filterMap (warning? c)) s (s.invokeAll c callbacks).1
      ∧ (s.invokeAll c callbacks).2 = !callbacks.all contained := by
  induction callbacks generalizing s with
  | nil => exact ⟨leaves_nothing rfl rfl rfl rfl, rfl⟩
  | cons callback rest ih =>
    obtain ⟨hone, hescaped⟩ := leaves_invoke s callback c
    rw [invokeAll, reached, List.all_cons, filterMap_cons_toList, filterMap_cons_toList,
      filterMap_cons_toList]
    generalize s.invoke callback c = invoked at hone hescaped
    obtain ⟨s', escaped⟩ := invoked
    obtain rfl : escaped = !contained callback := hescaped
    cases contained callback with
    | false =>
      refine ⟨?_, rfl⟩
      simp only [if_neg Bool.false_ne_true, List.filterMap_nil, List.append_nil]
      exact hone
    | true =>
      obtain ⟨hrest, hend⟩ := ih s'
      exact ⟨hone.append hrest, hend⟩

theorem reached_isPrefix (callbacks : List (Callback Deed)) : reached callbacks <+: callbacks := by
  induction callbacks with
  | nil => exact List.prefix_refl _
  | cons callback rest ih =>
    rw [reached, List.cons_prefix_cons]
    refine ⟨rfl, ?_⟩
    split
    · exact ih
    · exact List.nil_prefix

theorem reached_eq_iff :
    reached callbacks = callbacks ↔ ∀ callback ∈ callbacks.dropLast, contained callback = true := by
  induction callbacks with
  | nil => simp [reached]
  | cons callback rest ih =>
    rw [reached, List.cons_eq_cons, and_iff_right rfl]
    cases rest with
    | nil => simp [reached]
    | cons next others =>
      rw [List.dropLast_cons_cons, List.forall_mem_cons]
      cases contained callback with
      | true => exact ih.trans (and_iff_right rfl).symm
      | false => simp

/-- Commands were dispatched, and for each of them some callbacks were called, all in this order. -/
def Calls (calls : List (Command × List (Callback Deed))) : Session → Session → Prop :=
  Leaves (calls.flatMap fun e => .dispatched e.1 :: e.2.filterMap (note? e.1))
    (calls.flatMap fun e => e.2.filterMap (job? e.1))
    (calls.flatMap fun e => e.2.filterMap (warning? e.1))

theorem Calls.append {as bs : List (Command × List (Callback Deed))} (h : Calls as s s')
    (h' : Calls bs s' s'') : Calls (as ++ bs) s s'' := by
  rw [Calls, List.flatMap_append, List.flatMap_append, List.flatMap_append]
  exact Leaves.append h h'

/-- No callback that a command calls for lets a crash escape. -/
def Harmless (r : Registry Deed) (c : Command) : Prop :=
  ∀ callback ∈ r.callees c, contained callback = true

theorem reached_callees_eq_iff (r : Registry Deed) (c : Command) :
    reached (r.callees c) = r.concerned c
      ↔ (∀ e ∈ r.hearers c, e.2.isOneShot = false → c.header ∈ e.2.headers)
        ∧ ∀ callback ∈ (r.concerned c).dropLast, contained callback = true := by
  have hgathered := Registry.callbacks_audience_eq_iff r c
  constructor
  · intro hall
    have hlength : (r.concerned c).length ≤ (r.callees c).length := by
      rw [← hall]
      exact (reached_isPrefix _).length_le
    have hsame := (r.callees_sublist c).eq_of_length_le hlength
    rw [← hsame] at hall ⊢
    exact ⟨hgathered.mp hsame, reached_eq_iff.mp hall⟩
  · intro ⟨hunder, hcontained⟩
    have hsame : r.callees c = r.concerned c := hgathered.mpr hunder
    rw [hsame]
    exact reached_eq_iff.mpr hcontained

theorem deliver_calls (h : Registry.Numbered given s.registry) (c : Command) :
    Calls [(c, reached (s.registry.callees c))] s (s.deliver c).1
      ∧ ((s.deliver c).2 = false ↔ Harmless s.registry c) := by
  let offered := record { s with registry := (s.registry.dispatch c).1 } (.dispatched c)
  have hcallbacks : (s.registry.dispatch c).2.callbacks = s.registry.callees c := h.callbacks c
  have hdeliver : s.deliver c = offered.invokeAll c (s.registry.callees c) := by
    rw [← hcallbacks]
    rfl
  obtain ⟨hcalled, hescaped⟩ := leaves_invokeAll offered c (s.registry.callees c)
  have hoffered : Leaves [.dispatched c] [] [] s offered :=
    ⟨rfl, (List.append_nil _).symm, rfl, (List.append_nil _).symm⟩
  rw [hdeliver]
  refine ⟨?_, ?_⟩
  · rw [Calls, List.flatMap_singleton, List.flatMap_singleton, List.flatMap_singleton]
    exact hoffered.append hcalled
  · rw [hescaped, Bool.not_eq_false', List.all_eq_true]
    rfl

def commandsIn (s : Session) (frames : List Frame) : List Command :=
  heard s.catalog (collectAll s.fragments frames).2

theorem Took.commandsIn {as : List Frame} (h : Took as s s') (bs : List Frame) :
    s.commandsIn (as ++ bs) = s.commandsIn as ++ s'.commandsIn bs := by
  rw [Session.commandsIn, collectAll_append, heard, List.filterMap_append, Session.commandsIn,
    Session.commandsIn, h.fragments, h.catalog]
  rfl

def callsFor (s : Session) (commands : List Command) : List (Command × List (Callback Deed)) :=
  commands.map fun c => (c, reached (s.registry.callees c))

theorem Took.callees {frames : List Frame} (h : Took frames s s')
    (hn : Registry.Numbered given s.registry) : Registry.Numbered given s'.registry
      ∧ (∀ c, Harmless s'.registry c ↔ Harmless s.registry c)
      ∧ ∀ commands, s'.callsFor commands = s.callsFor commands := by
  obtain ⟨hnumbered, hcallees⟩ := hn.callees_dispatches
    (heard s.catalog (collectAll s.fragments frames).2)
  rw [← h.registry] at hnumbered hcallees
  refine ⟨hnumbered, fun c => by rw [Harmless, hcallees, Harmless], fun commands => ?_⟩
  exact List.map_congr_left fun c _ => by rw [hcallees]

theorem receiveFrame_calls (h : Registry.Numbered given s.registry) (frame : Frame) :
    Calls (s.callsFor (s.commandsIn [frame])) s (s.receiveFrame frame).1
      ∧ ((s.receiveFrame frame).2 = false ∧ (∀ c ∈ s.commandsIn [frame], Harmless s.registry c)
        ∨ (s.receiveFrame frame).2 = true
          ∧ ∃ c, s.commandsIn [frame] = [c] ∧ ¬Harmless s.registry c) := by
  let kept : Session := { s with fragments := (collect s.fragments frame).1 }
  have hone : s.commandsIn [frame]
      = (((collect s.fragments frame).2.bind (readCommand? s.catalog))).toList := by
    rw [commandsIn, heard]
    cases hp : (collect s.fragments frame).2 with
    | none => simp [collectAll, hp]
    | some p => cases hread : readCommand? s.catalog p <;> simp [collectAll, hp, hread]
  rw [hone]
  cases hc : (collect s.fragments frame).2.bind (readCommand? s.catalog) with
  | none =>
    have hrun : s.receiveFrame frame = (kept, false) := by
      simp only [receiveFrame, hc]
      rfl
    rw [hrun]
    exact ⟨leaves_nothing rfl rfl rfl rfl, Or.inl ⟨rfl, fun _ hm => absurd hm List.not_mem_nil⟩⟩
  | some c =>
    have hrun : s.receiveFrame frame = kept.deliver c := by
      simp only [receiveFrame, hc]
      rfl
    obtain ⟨hcalls, hescaped⟩ := deliver_calls (s := kept) h c
    rw [hrun]
    refine ⟨⟨hcalls.log, hcalls.tasks, hcalls.nextTask, hcalls.warnings⟩, ?_⟩
    cases hend : (kept.deliver c).2 with
    | false =>
      refine Or.inl ⟨rfl, fun d hd => ?_⟩
      rw [List.mem_singleton.mp hd]
      exact hescaped.mp hend
    | true =>
      refine Or.inr ⟨rfl, c, rfl, fun hh => ?_⟩
      rw [hescaped.mpr hh] at hend
      cases hend

structure Reads (id : LineId) (l : Line) (frames : List Frame) (goesOn : Bool) (s s' : Session) :
    Prop where
  took : Took (l.link.acceptAll frames).2 s s'
  line : s'.line? id
    = some { l with link := (l.link.acceptAll frames).1, reading := l.reading && goesOn }
  calls : Calls (s.callsFor (s.commandsIn (l.link.acceptAll frames).2)) s s'

theorem line?_acceptFrame (hl : s.line? id = some l) (frame : Frame) :
    (s.acceptFrame id l frame).1.line? id = some { l with link := (l.link.accept frame).1 } := by
  have hline : (s.modifyLine id fun l' => { l' with link := (l.link.accept frame).1 }).line? id
      = some { l with link := (l.link.accept frame).1 } := line?_modifyLine_self hl _
  rw [acceptFrame]
  cases (l.link.accept frame).2 with
  | none => exact hline
  | some f => exact (line?_congr (receiveFrame_took _ f).2 id).trans hline

theorem acceptFrame_calls (h : Registry.Numbered given s.registry) (id : LineId) (l : Line)
    (frame : Frame) :
    let commands := s.commandsIn (l.link.accept frame).2.toList
    Calls (s.callsFor commands) s (s.acceptFrame id l frame).1
      ∧ ((s.acceptFrame id l frame).2 = false ∧ (∀ c ∈ commands, Harmless s.registry c)
        ∨ (s.acceptFrame id l frame).2 = true ∧ ∃ c, commands = [c] ∧ ¬Harmless s.registry c) := by
  rw [acceptFrame]
  cases (l.link.accept frame).2 with
  | none => exact ⟨leaves_nothing rfl rfl rfl rfl, Or.inl ⟨rfl, fun _ hm => absurd hm List.not_mem_nil⟩⟩
  | some f =>
    let told := s.modifyLine id fun l' => { l' with link := (l.link.accept frame).1 }
    obtain ⟨hcalls, hend⟩ := receiveFrame_calls (s := told) h f
    exact ⟨⟨hcalls.log, hcalls.tasks, hcalls.nextTask, hcalls.warnings⟩, hend⟩

theorem Reads.cons {frame : Frame} {more : List Frame} {goesOn : Bool}
    (h : Registry.Numbered given s.registry) (htook : Took (l.link.accept frame).2.toList s s')
    (hcalls : Calls (s.callsFor (s.commandsIn (l.link.accept frame).2.toList)) s s')
    (hr : Reads id { l with link := (l.link.accept frame).1 } more goesOn s' s'') :
    Reads id l (frame :: more) goesOn s s'' := by
  refine ⟨htook.append hr.took, hr.line, ?_⟩
  have hmore := hr.calls
  rw [(htook.callees h).2.2] at hmore
  rw [Link.acceptAll_cons, htook.commandsIn, callsFor, List.map_append]
  exact Calls.append hcalls hmore

theorem reads_crashed {frame : Frame} (htook : Took (l.link.accept frame).2.toList s s')
    (hcalls : Calls (s.callsFor (s.commandsIn (l.link.accept frame).2.toList)) s s')
    (hline : s'.line? id = some { l with link := (l.link.accept frame).1 }) :
    Reads id l [frame] false s (s'.modifyLine id Line.stopReading) := by
  have hhanded : (l.link.acceptAll [frame]).2 = (l.link.accept frame).2.toList :=
    List.append_nil _
  refine ⟨?_, ?_, ?_⟩
  · rw [hhanded]
    exact ⟨htook.catalog, htook.fragments, htook.dispatches, htook.registry⟩
  · rw [Bool.and_false]
    exact line?_modifyLine_self hline Line.stopReading
  · rw [hhanded]
    exact ⟨hcalls.log, hcalls.tasks, hcalls.nextTask, hcalls.warnings⟩

/-- Frames are read up to one with a command that is not harmless. -/
theorem acceptFrames_reads (h : Registry.Numbered given s.registry) (hl : s.line? id = some l)
    (frames : List Frame) :
    Reads id l frames true s (s.acceptFrames id frames)
        ∧ (∀ c ∈ s.commandsIn (l.link.acceptAll frames).2, Harmless s.registry c)
      ∨ ∃ seen behind earlier c, frames = seen ++ behind
        ∧ Reads id l seen false s (s.acceptFrames id frames)
        ∧ s.commandsIn (l.link.acceptAll seen).2 = earlier ++ [c]
        ∧ (∀ d ∈ earlier, Harmless s.registry d) ∧ ¬Harmless s.registry c := by
  -- the frames behind meet the session as the first one leaves it, callbacks as before
  induction frames generalizing s l with
  | nil =>
    have hline : s.line? id = some { l with reading := l.reading && true } := by
      rw [Bool.and_true]
      exact hl
    exact Or.inl ⟨⟨took_nil s, hline, leaves_nothing rfl rfl rfl rfl⟩,
      fun _ hm => absurd hm List.not_mem_nil⟩
  | cons frame rest ih =>
    obtain ⟨htook, -⟩ := acceptFrame_took hl frame
    have hline := line?_acceptFrame hl frame
    obtain ⟨hcalls, hend⟩ := acceptFrame_calls h id l frame
    have hwoken := htook.steady (wakeRunnable_steady (s.acceptFrame id l frame).1)
    have hcalled : Calls (s.callsFor (s.commandsIn (l.link.accept frame).2.toList)) s
        (s.acceptFrame id l frame).1.wakeRunnable := ⟨hcalls.log, hcalls.tasks, hcalls.nextTask, hcalls.warnings⟩
    rw [acceptFrames_cons hl]
    rcases hend with ⟨hescaped, hharmless⟩ | ⟨hescaped, c, hcommand, hbad⟩
    · -- the reader goes on with the frames behind
      rw [if_neg (by rw [hescaped]; exact nofun)]
      obtain ⟨hnumbered, hsame, -⟩ := hwoken.callees h
      have hall : ∀ {commands}, (∀ c ∈ commands, Harmless
          (s.acceptFrame id l frame).1.wakeRunnable.registry c) →
          ∀ c ∈ s.commandsIn (l.link.accept frame).2.toList ++ commands, Harmless s.registry c := by
        intro commands hmore c hc
        rcases List.mem_append.mp hc with hc | hc
        · exact hharmless c hc
        · exact (hsame c).mp (hmore c hc)
      rcases ih hnumbered hline with ⟨hreads, hrest⟩ | ⟨seen, behind, earlier, c, hsplit, hreads,
        hcommands, hearlier, hbad⟩
      · refine Or.inl ⟨hreads.cons h hwoken hcalled, ?_⟩
        rw [Link.acceptAll_cons, hwoken.commandsIn]
        exact hall hrest
      · refine Or.inr ⟨frame :: seen, behind, _, c, ?_, hreads.cons h hwoken hcalled, ?_,
          hall hearlier, fun hh => hbad ((hsame c).mpr hh)⟩
        · rw [hsplit, List.cons_append]
        · rw [Link.acceptAll_cons, hwoken.commandsIn, hcommands, List.append_assoc]
    · rw [if_pos hescaped]
      refine Or.inr ⟨[frame], rest, [], c, rfl, reads_crashed hwoken hcalled hline, ?_,
        fun _ hm => absurd hm List.not_mem_nil, hbad⟩
      rw [show (l.link.acceptAll [frame]).2 = _ from List.append_nil _]
      exact hcommand

/-- What becomes of frames that arrived on a line: each that is no acknowledgement is acknowledged under
its number and taken, and the callbacks of each command are called. -/
structure Attended (id : LineId) (l : Line) (frames : List Frame) (s s' : Session) : Prop where
  acknowledged : ∃ acks, (s'.link? id).map (·.outgoing) = some (l.link.outgoing ++ acks)
    ∧ List.Forall₂ Frame.EchoedBy (frames.filter (!·.isAck)) acks
  taken : Took (frames.filter (!·.isAck)) s s'
  calls : Calls (s.callsFor (s.commandsIn (frames.filter (!·.isAck)))) s s'

/-- Frames were attended to, the last of which completes the first command that is not harmless, and the
reader ended with that. -/
structure Interrupted (id : LineId) (l : Line) (seen : List Frame) (s s' : Session) : Prop where
  attended : Attended id l seen s s'
  crash : ∃ earlier c, s.commandsIn (seen.filter (!·.isAck)) = earlier ++ [c]
    ∧ (∀ d ∈ earlier, Harmless s.registry d) ∧ ¬Harmless s.registry c
  gone : (s'.line? id).map (·.reading) = some false

theorem Reads.attended {frames : List Frame} {goesOn : Bool} (h : Reads id l frames goesOn s s')
    (hu : l.link.inUse = true) (ho : l.link.outlet = true) (hf : ∀ f ∈ frames, f.WellFormed) :
    Attended id l frames s s' := by
  obtain ⟨acks, hout, hecho⟩ := Link.acceptAll_outgoing ho frames
  have htaken := h.took
  have hcalls := h.calls
  rw [Link.acceptAll_delivered hu ho hf] at htaken hcalls
  refine ⟨⟨acks, ?_, hecho⟩, htaken, hcalls⟩
  rw [link?, h.line]
  exact congrArg some hout

theorem Attended.of_modifyLine {k : LineId} {f : Line → Line} {l' : Line} {frames : List Frame}
    (h : Attended id l' frames (s.modifyLine k f) s') (hl : l'.link.outgoing = l.link.outgoing) :
    Attended id l frames s s' := by
  obtain ⟨hack, htaken, hcalls⟩ := h
  rw [hl] at hack
  exact ⟨hack, ⟨htaken.catalog, htaken.fragments, htaken.dispatches, htaken.registry⟩,
    ⟨hcalls.log, hcalls.tasks, hcalls.nextTask, hcalls.warnings⟩⟩

theorem Lawful.in_use (hs : s.Lawful) (hc : s.current = some id) (hl : s.line? id = some l) :
    l.link.inUse = true ∧ l.link.outlet = true := by
  have hopen := Option.some.inj ((link_outline hl).symm.trans (hs.outline.used id hc))
  refine ⟨congrArg Prod.snd hopen, ?_⟩
  by_contra hn
  have hclosed := hs.regular.linked.outlet id l hl (Bool.eq_false_iff.mpr hn)
  exact absurd (hclosed.symm.trans (congrArg Prod.fst hopen)) nofun

theorem receiveBytes_attended (h : Registry.Numbered given s.registry) (hl : s.line? id = some l)
    (hu : l.link.inUse = true) (ho : l.link.outlet = true) (bytes : List UInt8) :
    let frames := (Stream.drain (l.link.buffer ++ bytes)).1
    let s' := s.receiveBytes id bytes
    (∀ c ∈ s.commandsIn (frames.filter (!·.isAck)), Harmless s.registry c)
        ∧ Attended id l frames s s' ∧ (s'.line? id).map (·.reading) = some l.reading
      ∨ ∃ seen behind, frames = seen ++ behind ∧ Interrupted id l seen s s' := by
  intro frames s'
  let read := s.modifyLine id fun l' => { l' with link := (l.link.extract bytes).1 }
  have hbytes : s' = read.acceptFrames id frames := by
    simp only [s', receiveBytes, hl]
    rfl
  have hread : read.line? id = some { l with link := (l.link.extract bytes).1 } :=
    line?_modifyLine_self hl _
  have hf : ∀ f ∈ frames, f.WellFormed := fun f hf => Stream.wellFormed_of_mem_drain hf
  have hdata : ∀ {part : List Frame}, (∀ f ∈ part, f.WellFormed) →
      ((l.link.extract bytes).1.acceptAll part).2 = part.filter (!·.isAck) := fun h =>
    Link.acceptAll_delivered (l := (l.link.extract bytes).1) hu ho h
  -- the bytes kept in the buffer are all that differs
  have hattended : ∀ {part goesOn s'}, (∀ f ∈ part, f.WellFormed) →
      Reads id { l with link := (l.link.extract bytes).1 } part goesOn read s' →
      Attended id l part s s' :=
    fun hpart hr => (hr.attended hu ho hpart).of_modifyLine rfl
  rw [hbytes]
  rcases acceptFrames_reads (s := read) h hread frames with ⟨hreads, hharmless⟩
    | ⟨seen, behind, earlier, c, hsplit, hreads, hcommands, hearlier, hbad⟩
  · rw [hdata hf] at hharmless
    refine Or.inl ⟨hharmless, hattended hf hreads, ?_⟩
    rw [hreads.line, Option.map_some, Bool.and_true]
  · have hseen : ∀ f ∈ seen, f.WellFormed := by
      intro f hm
      exact hf f (hsplit ▸ List.mem_append_left behind hm)
    rw [hdata hseen] at hcommands
    refine Or.inr ⟨seen, behind, hsplit, hattended hseen hreads,
      ⟨earlier, c, hcommands, hearlier, hbad⟩, ?_⟩
    rw [hreads.line, Option.map_some, Bool.and_false]

theorem turnReader_of_inbound (hc : s.current = some id) (hl : s.line? id = some l)
    (hr : l.reading = true) (hf : l.readFault = false) (hi : l.inbound ≠ []) :
    s.turnReader id = (s.modifyLine id fun l' => { l' with inbound := [] }).receiveBytes id l.inbound := by
  have hholds : s.holds id = true := by
    rw [holds, hc, beq_self_eq_true, Bool.true_or]
  have hsome : l.inbound.isEmpty = false := Bool.eq_false_iff.mpr fun h => hi (List.isEmpty_iff.mp h)
  simp [turnReader, Line.readable, hl, hr, hf, hholds, hsome]

theorem turnReader_attended (hs : s.Lawful) (h : Registry.Numbered given s.registry)
    (hc : s.current = some id) (hl : s.line? id = some l) (hr : l.reading = true)
    (hf : l.readFault = false) (hi : l.inbound ≠ []) :
    let frames := (Stream.drain (l.link.buffer ++ l.inbound)).1
    let s' := s.turnReader id
    (∀ c ∈ s.commandsIn (frames.filter (!·.isAck)), Harmless s.registry c)
        ∧ Attended id l frames s s' ∧ (s'.line? id).map (·.reading) = some true
      ∨ ∃ seen behind, frames = seen ++ behind ∧ Interrupted id l seen s s' := by
  intro frames s'
  let emptied := s.modifyLine id fun l' => { l' with inbound := [] }
  have hl' : emptied.line? id = some { l with inbound := [] } := line?_modifyLine_self hl _
  have hturn : s' = emptied.receiveBytes id l.inbound := turnReader_of_inbound hc hl hr hf hi
  obtain ⟨hu, ho⟩ := hs.in_use hc hl
  rcases receiveBytes_attended (s := emptied) h hl' hu ho l.inbound with
    ⟨hharmless, hattended, hreading⟩ | ⟨seen, behind, hsplit, hattended, hcrash, hgone⟩
  · rw [← hturn] at hattended hreading
    exact Or.inl ⟨hharmless, hattended.of_modifyLine rfl, hreading.trans (congrArg some hr)⟩
  · rw [← hturn] at hattended hgone
    exact Or.inr ⟨seen, behind, hsplit, hattended.of_modifyLine rfl, hcrash, hgone⟩

/-- In any life of a session, a command calls the callbacks that stand under its whole header, in the
order of registration, up to one that lets a crash escape. These are all that hear it exactly if nobody
but the last lets a crash escape and every indication stands there; and nothing of it is felt by the
session exactly if nobody lets a crash escape. So it is when the reader of the line in use takes what
arrived: if no command in it lets a crash escape, all frames are acknowledged and taken and the reader
stays. Else it is the frames up to the first such command, and the reader is gone. -/
theorem crashes_stay_iff (config : Config) (catalog : Catalog) (deviceOpens : Bool)
    (before : List Happening) :
    let s := (new config catalog deviceOpens).happenAll before
    let r := s.registry
    (∀ c, ((r.hearers c).map (·.1)).Pairwise (· < ·)
        ∧ Calls [(c, reached (r.callees c))] s (s.deliver c).1
        ∧ (reached (r.callees c) = r.concerned c
          ↔ (∀ e ∈ r.hearers c, e.2.isOneShot = false → c.header ∈ e.2.headers)
            ∧ ∀ callback ∈ (r.concerned c).dropLast, contained callback = true)
        ∧ ((s.deliver c).2 = false ↔ Harmless r c))
      ∧ (∀ frame, (s.receiveFrame frame).2 = false ↔ ∀ c ∈ s.commandsIn [frame], Harmless r c)
      ∧ ∀ id l, s.current = some id → s.line? id = some l →
        l.reading = true → l.readFault = false → l.inbound ≠ [] →
        let frames := (Stream.drain (l.link.buffer ++ l.inbound)).1
        let s' := s.happen (.act (.turn (.reader id)))
        ((∀ c ∈ s.commandsIn (frames.filter (!·.isAck)), Harmless r c) →
            Attended id l frames s s' ∧ (s'.line? id).map (·.reading) = some true)
          ∧ ((∃ c ∈ s.commandsIn (frames.filter (!·.isAck)), ¬Harmless r c) →
            ∃ seen behind, frames = seen ++ behind ∧ Interrupted id l seen s s') := by
  intro s r
  have hs : s.Lawful := (lawful_new config catalog deviceOpens).happenAll before
  obtain ⟨acts, hacts⟩ := registry_happenAll config catalog deviceOpens before
  have h : Registry.Numbered (Registry.registered acts) r := by
    have hrun := Registry.numbered_run acts
    rwa [← hacts] at hrun
  refine ⟨fun c => ?_, fun frame => ?_, fun id l hc hl hr hf hi => ?_⟩
  · obtain ⟨hcalls, hreturns⟩ := deliver_calls h c
    exact ⟨h.inOrder.sublist (List.filter_sublist.map _), hcalls, reached_callees_eq_iff r c, hreturns⟩
  · rcases (receiveFrame_calls h frame).2 with ⟨hend, hharmless⟩ | ⟨hend, c, hcommand, hbad⟩
    · exact iff_of_true hend hharmless
    · refine iff_of_false (by rw [hend]; exact nofun) fun hall => hbad (hall c ?_)
      rw [hcommand]
      exact List.mem_singleton_self c
  · intro frames s'
    -- either way the command that decides is one of those in the frames
    rcases turnReader_attended hs h hc hl hr hf hi with
      ⟨hharmless, hattended, hreading⟩ | ⟨seen, behind, hsplit, hinterrupted⟩
    · exact ⟨fun _ => ⟨hattended, hreading⟩, fun ⟨c, hc, hn⟩ => absurd (hharmless c hc) hn⟩
    · refine ⟨fun hall => ?_, fun _ => ⟨seen, behind, hsplit, hinterrupted⟩⟩
      obtain ⟨earlier, c, hcommands, -, hbad⟩ := hinterrupted.crash
      have hframes : frames.filter (!·.isAck) = seen.filter (!·.isAck) ++ behind.filter (!·.isAck) := by
        rw [← List.filter_append]
        exact congrArg _ hsplit
      rw [hframes, hinterrupted.attended.taken.commandsIn, hcommands] at hall
      exact absurd (hall c (List.mem_append_left _ (List.mem_append_right _ List.mem_cons_self))) hbad

/-- Three callbacks hear the first of two reports. While the second of them crashes in its task, both
reports are acknowledged and all callbacks are called. Where it crashes when it is called, the third is
not called, the second report is not seen, and the reader is gone. -/
theorem crashes_stay_iff_three_callbacks :
    let report : Definition :=
      ⟨"Report.Ind", .of .indication 0x77, [⟨"N", .u8, false⟩], false, none⟩
    let command : Command := ⟨report, [some (.uint 1)], false⟩
    let frame : UInt8 → Frame := fun n => (Frame.single (.ofHeader report.header [n])).stamp n
    let bytes := (frame 1).encode ++ (frame 2).encode
    let subscribe : Callback Deed → Happening :=
      fun callback => .act (.subscribe [Command.anyOf report] callback)
    let listening : Bool → List Happening := fun atCall => [.act .attach,
      subscribe (.inline ⟨"first", .crashes, 0, false⟩),
      subscribe (.spawned ⟨"second", .crashes, 0, atCall⟩),
      subscribe (.inline ⟨"third", .returns, 0, false⟩)]
    let session : Bool → Session := fun atCall =>
      (new (.forDevice "tty") (.insert .empty report) true).happenAll
        (listening atCall ++ [.act (.arrive 1 bytes)])
    let received : Bool → Session := fun atCall => (session atCall).happen (.act (.turn (.reader 1)))
    let l : Line := { Line.new 1000 with inbound := bytes }
    (∀ atCall, (session atCall).current = some 1 ∧ (session atCall).line? 1 = some l
        ∧ ((session atCall).registry.concerned command).length = 3)
      ∧ Attended 1 l [frame 1, frame 2] (session false) (received false)
      ∧ reached ((session false).registry.callees command) = (session false).registry.concerned command
      ∧ Attended 1 l [frame 1] (session true) (received true)
      ∧ ((received true).line? 1).map (·.reading) = some false
      ∧ (reached ((session true).registry.callees command)).length = 2 := by
  intro report command frame bytes subscribe listening session received l
  -- for any bytes, so that nobody evaluates the frames
  have hline : ∀ atCall bytes, ((new (.forDevice "tty") (.insert .empty report) true).happenAll
      (listening atCall ++ [.act (.arrive 1 bytes)])).line? 1
        = some { Line.new 1000 with inbound := bytes } := fun _ _ => rfl
  have hthere : ∀ atCall, (session atCall).current = some 1 ∧ (session atCall).line? 1 = some l
      ∧ ((session atCall).registry.concerned command).length = 3 := by
    intro atCall
    refine ⟨?_, hline atCall bytes, ?_⟩
    · cases atCall <;> decide +kernel
    · cases atCall <;> decide +kernel
  have hframes : (Stream.drain (l.link.buffer ++ l.inbound)).1 = [frame 1, frame 2] := by
    decide +kernel
  have hdata : [frame 1, frame 2].filter (!·.isAck) = [frame 1, frame 2] := by decide +kernel
  have hharmless : ∀ c ∈ (session false).commandsIn [frame 1, frame 2],
      Harmless (session false).registry c := by
    show ∀ c ∈ _, ∀ callback ∈ (session false).registry.callees c, contained callback = true
    decide +kernel
  have hbad : ∃ c ∈ ((session true).commandsIn [frame 1, frame 2]).dropLast,
      ¬Harmless (session true).registry c := by
    show ∃ c ∈ _, ¬∀ callback ∈ (session true).registry.callees c, contained callback = true
    decide +kernel
  have hresult := fun atCall =>
    crashes_stay_iff (.forDevice "tty") (.insert .empty report) true
      (listening atCall ++ [.act (.arrive 1 bytes)])
  have hread := fun atCall => (hresult atCall).2.2 1 l (hthere atCall).1 (hthere atCall).2.1 rfl rfl
    (by decide +kernel)
  simp only [hframes, hdata] at hread
  refine ⟨hthere, ((hread false).1 hharmless).1, ?_, ?_⟩
  · refine ((hresult false).1 command).2.2.1.mpr ?_
    decide +kernel
  · obtain ⟨bad, hmem, hn⟩ := hbad
    obtain ⟨seen, behind, hsplit, hattended, ⟨earlier, c, htaken, hearlier, -⟩, hgone⟩ :=
      (hread true).2 ⟨bad, List.dropLast_subset _ hmem, hn⟩
    rcases List.append_eq_cons_iff.mp hsplit.symm with ⟨rfl, -⟩ | ⟨more, rfl, hmore⟩
    · exact absurd htaken (List.ne_nil_of_mem (List.mem_append_right _ List.mem_cons_self)).symm
    · rcases List.append_eq_cons_iff.mp hmore.symm with ⟨rfl, -⟩ | ⟨rest, rfl, hrest⟩
      · exact ⟨hattended, hgone, rfl⟩
      · -- had the second report been seen, the first one would have been harmless
        obtain ⟨rfl, -⟩ := List.append_eq_nil_iff.mp hrest.symm
        have hboth : (session true).commandsIn [frame 1, frame 2] = earlier ++ [c] := by
          rw [← hdata]
          exact htaken
        rw [hboth, List.dropLast_concat] at hmem
        exact absurd (hearlier bad hmem) hn

end

end NcpHost.Session
