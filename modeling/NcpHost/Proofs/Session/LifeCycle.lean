import NcpHost.Proofs.Session.Outline

/-! The life of a session and its lines. Whatever happens, in any order and on any of its lines, the
session is connected while it has a line whose link is open and has a user, no other link is open,
fragments come from this line, and the end of any other line is no news. The hook is told of each
line at most once. -/

namespace NcpHost.Session

namespace Outline

def closing (o : Outline) (k : LineId) : Option (Bool × Bool) :=
  if o.current = some k then (o.link k).map fun _ => (true, false) else o.link k

def left (o : Outline) (state : State) : Outline :=
  { o with current := none, state := state, fragments := [], link := o.closing }

def attached (o : Outline) : Outline :=
  { o with
    current := some (o.generation + 1)
    state := .connected
    fragments := []
    generation := o.generation + 1
    keys := o.keys ++ [o.generation + 1]
    link := fun k => if k = o.generation + 1 then some (false, true) else o.closing k }

/-- Lines are numbered in order. While the session uses a line, its link is open and has a user, and
neither from then on. -/
structure Sound (o : Outline) : Prop where
  state : o.state = .connected ↔ o.current ≠ none
  nodup : o.keys.Nodup
  known : ∀ id ∈ o.keys, id ≤ o.generation
  keyed : ∀ id, o.link id ≠ none ↔ id ∈ o.keys
  used : ∀ id, o.current = some id → o.link id = some (false, true)
  unused : ∀ id u, o.current ≠ some id → o.link id = some u → u = (true, false)

variable {o : Outline}

theorem Sound.new_not_mem (h : o.Sound) : o.generation + 1 ∉ o.keys :=
  fun hm => absurd (h.known _ hm) (Nat.not_succ_le_self _)

theorem closing_ne_none (o : Outline) (id : LineId) : o.closing id ≠ none ↔ o.link id ≠ none := by
  unfold closing
  split <;> simp

theorem Sound.closing (h : o.Sound) {id : LineId} {u : Bool × Bool} (hu : o.closing id = some u) :
    u = (true, false) := by
  unfold Outline.closing at hu
  split at hu
  · obtain ⟨-, -, rfl⟩ := Option.map_eq_some_iff.mp hu
    rfl
  · next hc => exact h.unused id u hc hu

theorem Sound.left (h : o.Sound) {state : State} (hs : state ≠ .connected) :
    (o.left state).Sound where
  state := by simpa [Outline.left] using hs
  nodup := h.nodup
  known := h.known
  keyed id := (o.closing_ne_none id).trans (h.keyed id)
  used := nofun
  unused _ _ _ hu := h.closing hu

theorem Sound.attached (h : o.Sound) : o.attached.Sound where
  state := by simp [Outline.attached]
  nodup := by
    rw [Outline.attached, ← List.concat_eq_append]
    exact h.nodup.concat h.new_not_mem
  known id hid := by
    rcases List.mem_append.mp hid with hold | hlast
    · exact Nat.le_succ_of_le (h.known id hold)
    · exact Nat.le_of_eq (List.mem_singleton.mp hlast)
  keyed id := by
    have hkeyed := (o.closing_ne_none id).trans (h.keyed id)
    simp only [Outline.attached, List.mem_append, List.mem_singleton, ← hkeyed]
    split
    · next hid => simp [hid]
    · next hid => simp [hid]
  used id hid := by
    obtain rfl := Option.some.inj hid
    exact if_pos rfl
  unused id u hid hu := by
    have hne : id ≠ o.generation + 1 := fun heq => hid (heq ▸ rfl)
    exact h.closing ((if_neg hne).symm.trans hu)

theorem Sound.collected (h : o.Sound) (fragments : List Frame) :
    { o with fragments := fragments }.Sound :=
  ⟨h.state, h.nodup, h.known, h.keyed, h.used, h.unused⟩

theorem Sound.told (h : o.Sound) (hooks : List Event) : { o with hooks := hooks }.Sound :=
  ⟨h.state, h.nodup, h.known, h.keyed, h.used, h.unused⟩

end Outline

section

variable {s : Session} {id : LineId}

theorem link_shut {f : Line → Line}
    (hf : ∀ l, (f l).link.closed = true ∧ (f l).link.inUse = false) (k : LineId) :
    (s.modifyLine id f).outline.link k
      = if k = id then (s.outline.link k).map fun _ => (true, false) else s.outline.link k := by
  dsimp only [outline]
  rw [line?_modifyLine_at]
  split
  · simp [Option.map_map, Function.comp_def, hf]
  · rfl

theorem outline_shut {f : Line → Line}
    (hf : ∀ l, (f l).link.closed = true ∧ (f l).link.inUse = false) (hc : s.current = some id) :
    (s.modifyLine id f).outline = { s.outline with link := s.outline.closing } := by
  refine outline_modifyLine_link fun k => ?_
  rw [link_shut hf]
  simp [Outline.closing, outline, hc, eq_comm]

theorem outline_shut_other (h : s.outline.Sound) {f : Line → Line}
    (hf : ∀ l, (f l).link.closed = true ∧ (f l).link.inUse = false) (hc : s.current ≠ some id) :
    (s.modifyLine id f).outline = s.outline := by
  show _ = { s.outline with link := s.outline.link }
  refine outline_modifyLine_link fun k => ?_
  rw [link_shut hf]
  split
  · next hk =>
    subst hk
    cases hu : s.outline.link k with
    | none => rfl
    | some u => rw [h.unused k u hc hu, Option.map_some]
  · rfl

theorem outline_closeCurrent (s : Session) :
    s.closeCurrent.outline = { s.outline with link := s.outline.closing } := by
  unfold closeCurrent
  split
  · next id hc =>
    refine outline_shut ?_ hc
    exact fun l => ⟨rfl, rfl⟩
  · next hc =>
    have hlink : s.outline.closing = s.outline.link := by
      funext k
      simp [Outline.closing, outline, hc]
    rw [hlink]

theorem outline_disconnect (s : Session) (state : State) :
    { s.disconnect with state := state }.outline = s.outline.left state := by
  have hleft : ∀ s' : Session, s'.outline = s.outline →
      { s'.closeCurrent with current := none, fragments := [], state := state }.outline
        = s.outline.left state := by
    intro s' heq
    have hclosed := outline_closeCurrent s'
    rw [heq] at hclosed
    show { s'.closeCurrent.outline with current := none, fragments := [], state := state } = _
    rw [hclosed]
    rfl
  unfold disconnect
  split
  · exact hleft s rfl
  · exact hleft _ rfl

theorem outline_attach (h : s.outline.Sound) : s.attach.1.outline = s.outline.attached := by
  have hclosed := outline_closeCurrent s
  have hlink := congrArg Outline.link hclosed
  have hkeys := congrArg Outline.keys hclosed
  have hhooks := congrArg Outline.hooks hclosed
  have hnew : s.closeCurrent.lines.lookup (s.generation + 1) = none := by
    have hnone : s.closeCurrent.outline.link (s.generation + 1) = none := by
      rw [hlink]
      refine not_not.mp fun hn => h.new_not_mem ((h.keyed _).mp ?_)
      exact (s.outline.closing_ne_none _).mp hn
    exact Option.map_eq_none_iff.mp hnone
  have hlookup : ∀ k, s.attach.1.line? k = if k = s.generation + 1
      then some (.new s.closeCurrent.config.ackTimeout.toNat) else s.closeCurrent.line? k :=
    fun k => Keyed.lookup_concat _ _ _ k hnew
  ext1 <;> try rfl
  · show (s.closeCurrent.lines ++ _).map (·.1) = _
    rw [List.map_append]
    exact congrArg (· ++ [s.generation + 1]) hkeys
  · funext k
    show (s.attach.1.line? k).map _ = if k = s.generation + 1 then _ else _
    rw [hlookup]
    split
    · rfl
    · exact congrFun hlink k
  · exact hhooks

theorem outline_connect (h : s.outline.Sound) :
    s.connect.1.outline = s.outline ∨ s.connect.1.outline = s.outline.attached
      ∨ s.connect.1.outline = s.outline.left .error := by
  unfold connect
  split
  · exact Or.inl rfl
  · split
    · exact Or.inr (Or.inl (outline_attach h))
    · exact Or.inr (Or.inr (outline_disconnect s .error))

end

section

variable {s s' : Session} {id : LineId} {h : Happening}

/-- What becomes of the session and its lines: it stays as it is, it collects what the link in use
hands on, or the line in use goes. -/
inductive Course (s : Session) (h : Happening) : Outline → Prop where
  | stays : Course s h s.outline
  | collects {id : LineId} {l : Line} {handed : List Frame} : s.current = some id →
    h = .act (.turn (.reader id)) → s.line? id = some l → handed <+: (l.link.receive l.inbound).2 →
    Course s h { s.outline with fragments := (collectAll s.fragments handed).1 }
  | attaches : h.line? = none → Course s h s.outline.attached
  | leaves {state : State} : state ≠ .connected → (∀ id, h.line? = some id → s.current = some id) →
    Course s h (s.outline.left state)
  | mourns {id : LineId} {name : String} {cause : Option Fault} : s.current = some id →
    h.line? = some id →
    Course s h { s.outline.left .disconnected with hooks := s.hooks ++ [.hook name cause] }

theorem Course.of_eq {o o' : Outline} (heq : o' = o) (hc : Course s h o) : Course s h o' := by
  rwa [heq]

theorem Course.sound {o : Outline} (hc : Course s h o) (hs : s.outline.Sound) : o.Sound := by
  cases hc with
  | stays => exact hs
  | collects => exact hs.collected _
  | attaches => exact hs.attached
  | leaves hstate => exact hs.left hstate
  | mourns =>
    have hleft : (s.outline.left .disconnected).Sound := hs.left nofun
    exact hleft.told _

theorem inUse_eq (hs : s.outline.Sound) {l : Line} (hl : s.line? id = some l) :
    l.link.inUse = decide (s.current = some id) := by
  have hlink := link_outline hl
  by_cases hc : s.current = some id
  · have hused := Option.some.inj (hlink.symm.trans (hs.used id hc))
    simpa [hc] using congrArg Prod.snd hused
  · have hunused := hs.unused id _ hc hlink
    simpa [hc] using congrArg Prod.snd hunused

theorem outline_leaveLine (hc : s.current = some id) (cause : Option Fault) :
    let gone := { s.outline with current := none, state := .disconnected, fragments := [] }
    (s.leaveLine id cause).outline = gone ∨ ∃ name,
      (s.leaveLine id cause).outline = { gone with hooks := s.hooks ++ [.hook name cause] } := by
  unfold leaveLine
  rw [if_neg (not_not.mpr hc)]
  dsimp only
  split
  · next name _ _ =>
    refine Or.inr ⟨name, ?_⟩
    simp [outline, record, hooks, line?, Event.isHook]
  · exact Or.inl rfl

theorem course_loseLine (hs : s.outline.Sound) (hh : h.line? = some id) (cause : Option Fault) :
    Course s h (s.loseLine id cause).outline := by
  unfold loseLine
  split
  · exact .stays
  · next l hl =>
    dsimp only
    generalize hshut : s.modifyLine id (fun l => { l with link := l.link.close }) = shut
    have hcurrent : shut.current = s.current := hshut ▸ rfl
    rw [inUse_eq hs hl]
    by_cases hc : s.current = some id
    · have hclosed : shut.outline = { s.outline with link := s.outline.closing } :=
        hshut ▸ outline_shut (fun _ => ⟨rfl, rfl⟩) hc
      have hhooks : shut.hooks = s.hooks := congrArg Outline.hooks hclosed
      rw [if_pos (by simpa using hc)]
      rcases outline_leaveLine (hcurrent.trans hc) cause with heq | ⟨name, heq⟩
      · rw [hclosed] at heq
        exact .of_eq heq (.leaves nofun fun k hk => hc.trans (hh.symm.trans hk))
      · rw [hclosed, hhooks] at heq
        exact .of_eq heq (.mourns hc hh)
    · rw [if_neg (by simpa using hc)]
      exact .of_eq (hshut ▸ outline_shut_other hs (fun _ => ⟨rfl, rfl⟩) hc) .stays

theorem happen_late (hs : s.outline.Sound) (id : LineId) (cause : Option Fault) :
    s.happen (.late id cause) = s := by
  unfold happen
  dsimp only
  split
  · next l hl =>
    rw [inUse_eq hs hl]
    by_cases hc : s.current = some id
    · exact if_pos (by simpa using hc)
    · rw [if_neg (by simpa using hc)]
      exact if_pos hc
  · rfl

theorem course_connect (hs : s.outline.Sound) (hh : h.line? = none) :
    Course s h s.connect.1.outline := by
  rcases outline_connect hs with heq | heq | heq
  · exact .of_eq heq .stays
  · exact .of_eq heq (.attaches hh)
  · exact .of_eq heq (.leaves nofun fun id hid => absurd (hh.symm.trans hid) nofun)

theorem course_turnReader (hs : s.outline.Sound) (id : LineId) :
    Course s (.act (.turn (.reader id))) (s.turnReader id).outline := by
  have hturn := readerTurn s id
  generalize (s.turnReader id).outline = o at hturn
  cases hturn with
  | nothing => exact .stays
  | loses cause => exact course_loseLine hs rfl cause
  | @collects l handed hl hprefix =>
    by_cases hc : s.current = some id
    · exact .collects hc rfl hl hprefix
    · -- a link without a user hands nothing on
      have hunused : l.link.inUse = false := by simpa [hc] using inUse_eq hs hl
      have hread : (l.link.extract l.inbound).1.inUse = false := hunused
      obtain rfl : handed = [] := by
        rw [Link.receive, Link.acceptAll_unused hread, List.prefix_nil] at hprefix
        exact hprefix
      exact .stays

theorem perform_connect (s : Session) : (s.perform .connect).1 = s.connect.1 := by
  unfold perform
  dsimp only
  split
  · next h => rw [h]
  · next h => rw [h]

theorem outline_replyListener_await (s : Session) (patterns : List Command) :
    (s.replyListener (s.await patterns)).1.outline = s.outline := by
  unfold await
  split <;> rfl

theorem outline_replyListener_subscribe (s : Session) (patterns : List Command)
    (callback : Callback Deed) :
    (s.replyListener (s.subscribe patterns callback)).1.outline = s.outline := by
  unfold subscribe
  split <;> rfl

/-- Whatever happens is one of these. -/
theorem course (hs : s.outline.Sound) (h : Happening) : Course s h (s.happen h).outline := by
  cases h with
  | report line cause => exact course_loseLine hs rfl cause
  | late line cause =>
    -- the line that it comes from is not in use any more
    rw [happen_late hs]
    exact .stays
  | device opens => exact .stays
  | act act =>
    cases act with
    | attach => exact .of_eq (outline_attach hs) (.attaches rfl)
    | connect =>
      have hconnect : s.happen (.act .connect) = s.connect.1 := perform_connect s
      rw [hconnect]
      exact course_connect hs rfl
    | disconnect => exact .of_eq (outline_disconnect s .disconnected) (.leaves nofun fun _ => nofun)
    | setHook | takeTsn | start | remove | cancel | release | elapse | queue => exact .stays
    | abort id => exact .of_eq (outline_abort s id) .stays
    | await patterns => exact .of_eq (outline_replyListener_await s patterns) .stays
    | subscribe patterns callback =>
      exact .of_eq (outline_replyListener_subscribe s patterns callback) .stays
    | arrive line bytes =>
      refine .of_eq (outline_modifyLine fun l _ => ?_) .stays
      split <;> exact ⟨rfl, rfl⟩
    | hangUp line => exact .of_eq (outline_modifyLine fun _ _ => ⟨rfl, rfl⟩) .stays
    | breakReading line => exact .of_eq (outline_modifyLine fun _ _ => ⟨rfl, rfl⟩) .stays
    | breakWriting line => exact .of_eq (outline_modifyLine fun _ _ => ⟨rfl, rfl⟩) .stays
    | turn worker =>
      cases worker with
      | reader line => exact course_turnReader hs line
      | writer line =>
        rcases outline_turnWriter s line with heq | ⟨cause, heq⟩
        · exact .of_eq heq .stays
        · exact .of_eq heq (course_loseLine hs rfl cause)
      | task id =>
        rcases outline_turnTask s id with heq | heq
        · exact .of_eq heq .stays
        · exact .of_eq heq (course_connect hs rfl)

end

section

variable {s s' s'' : Session} {id : LineId} {h : Happening}

structure Aside (id : LineId) (s s' : Session) : Prop where
  state : s'.state = s.state
  current : s'.current = s.current
  line : ∀ k ≠ id, s'.line? k = s.line? k
  fragments : s'.fragments = s.fragments
  registry : s'.registry = s.registry
  tasks : s'.tasks = s.tasks
  hook : s'.hook = s.hook
  log : s'.log = s.log

theorem aside_refl (s : Session) (id : LineId) : Aside id s s :=
  ⟨rfl, rfl, fun _ _ => rfl, rfl, rfl, rfl, rfl, rfl⟩

theorem Aside.trans (h : Aside id s s') (h' : Aside id s' s'') : Aside id s s'' :=
  ⟨h'.state.trans h.state, h'.current.trans h.current,
    fun k hk => (h'.line k hk).trans (h.line k hk), h'.fragments.trans h.fragments,
    h'.registry.trans h.registry, h'.tasks.trans h.tasks, h'.hook.trans h.hook, h'.log.trans h.log⟩

theorem aside_modifyLine (s : Session) (id : LineId) (f : Line → Line) :
    Aside id s (s.modifyLine id f) :=
  ⟨rfl, rfl, fun k hk => (line?_modifyLine_at s id f k).trans (if_neg hk), rfl, rfl, rfl, rfl, rfl⟩

theorem aside_wakeRunnable (s : Session) (id : LineId) : Aside id s s.wakeRunnable :=
  ⟨rfl, rfl, fun _ _ => rfl, rfl, rfl, rfl, rfl, rfl⟩

theorem aside_loseLine (hc : s.current ≠ some id) (cause : Option Fault) :
    Aside id s (s.loseLine id cause) := by
  unfold loseLine
  split
  · exact aside_refl s id
  · next l _ =>
    have hshut := aside_modifyLine s id fun l => { l with link := l.link.close }
    have hleave : (s.modifyLine id fun l => { l with link := l.link.close }).leaveLine id cause
        = s.modifyLine id fun l => { l with link := l.link.close } := if_pos hc
    dsimp only
    rwa [hleave, ite_self]

theorem aside_acceptFrames {l : Link} (hl : s.link? id = some l) (hu : l.inUse = false)
    (frames : List Frame) : Aside id s (s.acceptFrames id frames) := by
  induction frames generalizing s l with
  | nil => exact aside_refl s id
  | cons frame rest ih =>
    obtain ⟨line, hline, rfl⟩ := Option.map_eq_some_iff.mp hl
    have hlink := (acceptFrame_took hline frame).2
    have haccepted : s.acceptFrame id line frame
        = (s.modifyLine id fun l' => { l' with link := (line.link.accept frame).1 }, false) := by
      rw [acceptFrame, Link.accept_unused hu]
    rw [acceptFrames_cons hline, haccepted, if_neg Bool.false_ne_true]
    rw [haccepted] at hlink
    have haccept := aside_modifyLine s id fun l' => { l' with link := (line.link.accept frame).1 }
    have hwoken := haccept.trans (aside_wakeRunnable _ id)
    exact hwoken.trans (ih hlink ((line.link.inUse_accept frame).trans hu))

theorem aside_receiveBytes {l : Line} (hl : s.line? id = some l) (hu : l.link.inUse = false)
    (bytes : List UInt8) : Aside id s (s.receiveBytes id bytes) := by
  unfold receiveBytes
  rw [hl]
  let read := s.modifyLine id fun l' => { l' with link := (l.link.extract bytes).1 }
  have hlink : read.link? id = some (l.link.extract bytes).1 := link?_modifyLine hl _
  exact (aside_modifyLine s id _).trans (aside_acceptFrames hlink hu _)

theorem aside_turnReader (hs : s.outline.Sound) (hc : s.current ≠ some id) :
    Aside id s (s.turnReader id) := by
  have hlost : ∀ cause, Aside id s ((s.loseLine id cause).modifyLine id Line.stopReading) :=
    fun cause => (aside_loseLine hc cause).trans (aside_modifyLine _ id _)
  unfold turnReader
  split
  · exact aside_refl s id
  · next l hl =>
    split
    · exact aside_refl s id
    · split
      · exact aside_modifyLine s id _
      · split
        · exact hlost _
        · split
          · have hu : l.link.inUse = false := by simpa [hc] using inUse_eq hs hl
            let emptied := s.modifyLine id fun l => { l with inbound := [] }
            have hl' : emptied.line? id = some { l with inbound := [] } :=
              line?_modifyLine_self hl _
            exact (aside_modifyLine s id _).trans (aside_receiveBytes hl' hu _)
          · exact hlost _

theorem aside_turnWriter (hc : s.current ≠ some id) : Aside id s (s.turnWriter id) := by
  unfold turnWriter
  split
  · exact aside_refl s id
  · split
    · exact aside_refl s id
    · split
      · dsimp only
        split
        · exact (aside_loseLine hc _).trans (aside_modifyLine _ id _)
        · exact aside_modifyLine s id _
      · dsimp only
        split
        · exact aside_modifyLine s id _
        · exact (aside_modifyLine s id _).trans (aside_modifyLine _ id _)

theorem aside_happen (hs : s.outline.Sound) (hh : h.line? = some id) (hc : s.current ≠ some id) :
    Aside id s (s.happen h) := by
  cases h with
  | report line cause =>
    obtain rfl := Option.some.inj hh
    exact aside_loseLine hc cause
  | late line cause =>
    rw [happen_late hs]
    exact aside_refl s id
  | device opens => exact absurd hh nofun
  | act act =>
    cases act with
    | hangUp line =>
      obtain rfl := Option.some.inj hh
      exact aside_modifyLine s line fun l => { l with hungUp := true }
    | breakReading line =>
      obtain rfl := Option.some.inj hh
      exact aside_modifyLine s line fun l => { l with readFault := true }
    | breakWriting line =>
      obtain rfl := Option.some.inj hh
      exact aside_modifyLine s line fun l => { l with writeFault := true }
    | turn worker =>
      cases worker with
      | reader line =>
        obtain rfl := Option.some.inj hh
        exact aside_turnReader hs hc
      | writer line =>
        obtain rfl := Option.some.inj hh
        exact aside_turnWriter hc
      | task => exact absurd hh nofun
    | _ => exact absurd hh nofun

end

section

variable {s : Session}

theorem sound_new (config : Config) (catalog : Catalog) (deviceOpens : Bool) :
    (new config catalog deviceOpens).outline.Sound where
  state := by simp [outline, new]
  nodup := List.nodup_nil
  known := nofun
  keyed id := by simp [outline, new, line?]
  used := nofun
  unused := nofun

theorem Outline.Sound.happenAll (hs : s.outline.Sound) (happenings : List Happening) :
    (s.happenAll happenings).outline.Sound := by
  induction happenings generalizing s with
  | nil => exact hs
  | cons h rest ih => exact ih ((course hs h).sound hs)

/-- The lines whose loss the hook is told of, one entry for each time. -/
def mourned (s : Session) : List Happening → List LineId
  | [] => []
  | h :: rest =>
    (if (s.happen h).hooks.length = s.hooks.length then [] else h.line?.toList)
      ++ (s.happen h).mourned rest

def MayMourn (s : Session) (id : LineId) : Prop := s.current = some id ∨ s.generation < id

theorem Course.mourns_once {s' : Session} {h : Happening} (hc : Course s h s'.outline) :
    s'.hooks.length = s.hooks.length ∧ (∀ id, s'.MayMourn id → s.MayMourn id)
      ∨ ∃ id, s.current = some id ∧ h.line? = some id ∧ s'.hooks.length = s.hooks.length + 1
        ∧ ∀ k, s'.MayMourn k → s.generation < k := by
  generalize ho : s'.outline = o at hc
  have hcurrent : s'.current = o.current := congrArg Outline.current ho
  have hgeneration : s'.generation = o.generation := congrArg Outline.generation ho
  have hhooks : s'.hooks = o.hooks := congrArg Outline.hooks ho
  unfold MayMourn
  rw [hcurrent, hgeneration, hhooks]
  cases hc with
  | stays | collects => exact Or.inl ⟨rfl, fun id hm => hm⟩
  | attaches =>
    refine Or.inl ⟨rfl, fun id hm => Or.inr ?_⟩
    rcases hm with hnew | hlater
    · exact Nat.lt_of_succ_le (Nat.le_of_eq (Option.some.inj hnew))
    · exact Nat.lt_of_succ_lt hlater
  | leaves => exact Or.inl ⟨rfl, fun id hm => Or.inr (hm.resolve_left nofun)⟩
  | @mourns id name cause hc hline =>
    refine Or.inr ⟨id, hc, hline, ?_, fun k hm => hm.resolve_left nofun⟩
    exact List.length_append

theorem mourned_spec (hs : s.outline.Sound) (happenings : List Happening) :
    (s.happenAll happenings).hooks.length = s.hooks.length + (s.mourned happenings).length
      ∧ (s.mourned happenings).Nodup ∧ ∀ id ∈ s.mourned happenings, s.MayMourn id := by
  induction happenings generalizing s with
  | nil => exact ⟨rfl, List.nodup_nil, nofun⟩
  | cons h rest ih =>
    have hcourse := course hs h
    obtain ⟨hlength, hnodup, hmay⟩ := ih (hcourse.sound hs)
    rw [happenAll_cons, mourned]
    rcases hcourse.mourns_once with ⟨hsame, hkeeps⟩ | ⟨id, hc, hline, hone, hlater⟩
    · rw [if_pos hsame, List.nil_append, hlength, hsame]
      exact ⟨rfl, hnodup, fun id hid => hkeeps id (hmay id hid)⟩
    · have hne : (s.happen h).hooks.length ≠ s.hooks.length := by omega
      have hthere : s.outline.link id ≠ none := by
        rw [hs.used id hc]
        exact nofun
      have hknown : id ≤ s.generation := hs.known id ((hs.keyed id).mp hthere)
      -- the line that goes now is used no more, so those told later are newer
      have hnew : ∀ k ∈ (s.happen h).mourned rest, s.generation < k :=
        fun k hk => hlater k (hmay k hk)
      rw [if_neg hne, hline, Option.toList_some, List.singleton_append]
      refine ⟨?_, List.nodup_cons.mpr ⟨fun hm => ?_, hnodup⟩, fun k hk => ?_⟩
      · rw [hlength, hone, List.length_cons]
        omega
      · exact absurd (hnew id hm) (Nat.not_lt.mpr hknown)
      · rcases List.mem_cons.mp hk with rfl | hm
        · exact Or.inl hc
        · exact Or.inr (hnew k hm)

def Delivers (s : Session) (h : Happening) (id : LineId) (f : Frame) : Prop :=
  h = .act (.turn (.reader id)) ∧ ∃ l, s.line? id = some l ∧ f ∈ (l.link.receive l.inbound).2

theorem Course.fragments {s' : Session} {h : Happening} (hc : Course s h s'.outline) {f : Frame}
    (hf : f ∈ s'.fragments) :
    s'.current = s.current ∧ f ∈ s.fragments
      ∨ ∃ id, s'.current = some id ∧ Delivers s h id f := by
  generalize ho : s'.outline = o at hc
  have hcurrent : s'.current = o.current := congrArg Outline.current ho
  have hfragments : s'.fragments = o.fragments := congrArg Outline.fragments ho
  rw [hfragments] at hf
  rw [hcurrent]
  cases hc with
  | stays => exact Or.inl ⟨rfl, hf⟩
  | @collects id l handed hc hh hl hprefix =>
    have hmem := (collectAll_suffix s.fragments handed).subset hf
    rcases List.mem_append.mp hmem with hold | hnew
    · exact Or.inl ⟨rfl, hold⟩
    · exact Or.inr ⟨id, hc, hh, l, hl, hprefix.subset hnew⟩
  | attaches | leaves | mourns => exact absurd hf List.not_mem_nil

theorem fragments_from (hs : s.outline.Sound) (hnone : s.fragments = [])
    (happenings : List Happening) {f : Frame} (hf : f ∈ (s.happenAll happenings).fragments) :
    ∃ id before h after, (s.happenAll happenings).current = some id
      ∧ happenings = before ++ h :: after ∧ Delivers (s.happenAll before) h id f := by
  induction happenings using List.reverseRecOn with
  | nil =>
    rw [happenAll_nil, hnone] at hf
    exact absurd hf List.not_mem_nil
  | append_singleton before h ih =>
    rw [happenAll_concat] at hf ⊢
    rcases (course (hs.happenAll before) h).fragments hf with ⟨hc, hold⟩ | ⟨id, hc, hd⟩
    · obtain ⟨id, first, h', after, hc', rfl, hd⟩ := ih hold
      refine ⟨id, first, h', after ++ [h], hc.trans hc', ?_, hd⟩
      simp
    · exact ⟨id, before, h, [], hc, rfl, hd⟩

theorem Outline.Sound.closed (hs : s.outline.Sound) {id : LineId} {l : Line}
    (hl : s.line? id = some l) (hc : s.current ≠ some id) : l.link.closed = true :=
  congrArg Prod.fst (hs.unused id _ hc (link_outline hl))

theorem Outline.Sound.one_open (hs : s.outline.Sound) :
    (s.lines.filter fun e => !e.2.link.closed).length ≤ 1 := by
  have hkeys : ((s.lines.filter fun e => !e.2.link.closed).map (·.1)).Nodup :=
    hs.nodup.sublist (List.filter_sublist.map _)
  have hcurrent : ∀ e ∈ s.lines.filter fun e => !e.2.link.closed, s.current = some e.1 := by
    intro e he
    obtain ⟨hm, hopen⟩ := List.mem_filter.mp he
    have hl : s.line? e.1 = some e.2 := Keyed.lookup_of_mem hs.nodup hm
    by_contra hc
    simp [hs.closed hl hc] at hopen
  generalize (s.lines.filter fun e => !e.2.link.closed) = opened at hkeys hcurrent
  match opened with
  | [] => exact Nat.zero_le 1
  | [e] => exact Nat.le_refl 1
  | e :: e' :: rest =>
    have hsame : e.1 = e'.1 := by
      have h := hcurrent e List.mem_cons_self
      have h' := hcurrent e' (List.mem_cons_of_mem _ List.mem_cons_self)
      exact Option.some.inj (h.symm.trans h')
    simp [hsame] at hkeys

structure LifeCycle (s₀ : Session) (happenings : List Happening) (s : Session) : Prop where
  connected : s.isConnected = true ↔ s.state = .connected
  stored : s.state = .connected ↔ ∃ id l, s.current = some id ∧ s.line? id = some l
    ∧ l.link.closed = false ∧ l.link.inUse = true
  oneOpen : (s.lines.filter fun e => !e.2.link.closed).length ≤ 1
  stale : ∀ h id, h.line? = some id → s.current ≠ some id → Aside id s (s.happen h)
  told : s.hooks.length = (s₀.mourned happenings).length
  once : (s₀.mourned happenings).Nodup
  fragments : ∀ f ∈ s.fragments, ∃ id before h after, s.current = some id
    ∧ happenings = before ++ h :: after ∧ Delivers (s₀.happenAll before) h id f

/-- Whatever happens to a session and its lines, and in whatever order: it is connected if and only if
it says so, and if and only if it has a line whose link is open and has a user; no other link that it
ever had is open; what comes from the stream of any other line changes nothing but that line; the hook
is told of each line once at most; and the fragments at hand were handed on by the line in use. -/
theorem life_cycle (config : Config) (catalog : Catalog) (deviceOpens : Bool)
    (happenings : List Happening) :
    LifeCycle (new config catalog deviceOpens) happenings
      ((new config catalog deviceOpens).happenAll happenings) := by
  have hnew := sound_new config catalog deviceOpens
  have hs := hnew.happenAll happenings
  obtain ⟨htold, honce, -⟩ := mourned_spec hnew happenings
  refine ⟨?_, ?_, hs.one_open, fun h id hh hc => aside_happen hs hh hc, ?_, honce,
    fun f hf => fragments_from hnew rfl happenings hf⟩
  · exact Option.isSome_iff_ne_none.trans hs.state.symm
  · constructor
    · intro hstate
      obtain ⟨id, hc⟩ := Option.ne_none_iff_exists'.mp (hs.state.mp hstate)
      obtain ⟨l, hl, hlink⟩ := Option.map_eq_some_iff.mp (hs.used id hc)
      exact ⟨id, l, hc, hl, congrArg Prod.fst hlink, congrArg Prod.snd hlink⟩
    · rintro ⟨id, l, hc, -⟩
      refine hs.state.mpr fun hnone => ?_
      exact absurd (hc.symm.trans hnone) nofun
  · -- the record was empty at the start
    exact htold.trans (Nat.zero_add _)

/-- The first line is replaced before its stream fails; the second one is lost, and ends once more. -/
example : (new (.forDevice "tty") .empty true).mourned [.act (.setHook "lost"), .act .attach, .act .attach,
    .report 1 none, .act (.hangUp 2), .act (.turn (.reader 2)), .report 2 none] = [2] := by
  decide +kernel

end

end NcpHost.Session
