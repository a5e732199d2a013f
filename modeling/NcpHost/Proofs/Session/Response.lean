import NcpHost.Proofs.Session.Causality
import NcpHost.Proofs.Session.Standing

/-! No response is lost. A request whose link stays up, that is not given up and that has the only
one-shot listener for its response returns the first command under that header that is offered after it
was issued, whether that comes before it was sent, between its acknowledgements or without any. -/

namespace NcpHost.Session

/-- The first command under the header of its response that is offered after a request was issued. -/
structure Request.FirstReply {s : Session} {acts : Nat → Act} (r : s.Request acts) (place : Nat)
    (a : Command) : Prop where
  offered : s.Logs acts place (.dispatched a)
  header : a.header = r.pattern.header
  since : r.since ≤ place
  first : ∀ p d, r.since ≤ p → p < place → s.Logs acts p (.dispatched d) →
    d.header ≠ r.pattern.header

section

variable {s : Session} {acts : Nat → Act} {r : s.Request acts} {place : Nat} {a : Command}

theorem Request.FirstReply.takeTurns (h : r.FirstReply place a) (hr : s.Regular)
    (halone : r.Among (· = r.listener)) :
    TakeTurns (fun _ : Unit => r) (fun _ => place) fun _ => a := by
  intro m line s₁ c hact hw₁ hw₂ hstands _ hm hlistener
  have hsound := (hr.within hw₁).orderly.listening.sound
  refine ⟨fun hlast k hk hlt hawaits => ?_, fun hlt => Request.same_of_header hsound hlistener ?_⟩
  · obtain ⟨e, hu, -⟩ := (hstands () hm).underway hlistener
    have heq := halone.awaits hr hact hw₁ hm hu.present h.header hk hawaits
    exact absurd hlt (heq ▸ Nat.lt_irrefl _)
  · -- what comes before is under other headers
    have hlogs : s.Logs acts s₁.log.length (.dispatched c) :=
      hw₂.logs List.getElem?_concat_length
    have hsince : r.since ≤ s₁.log.length :=
      Nat.le_trans (s.log_trail acts (Nat.le_of_lt hm)).length_le (steps_log hw₁.1).length_le
    exact h.first _ c hsince hlt hlogs

end

/-- A request returns the first command under the header of its response, if that is offered before its
time is over. Its link stays up, it is not given up, and no other one-shot listener is there for that
header; nothing is said of acknowledgements. -/
theorem first_reply_returned (config : Config) (catalog : Catalog) (deviceOpens : Bool)
    (acts : Nat → Act) :
    let s := Session.new config catalog deviceOpens
    ∀ (r : s.Request acts) (place : Nat) (a : Command), r.Kept → r.Among (· = r.listener) →
      r.FirstReply place a → (∀ q < place, ¬s.Logs acts q (.finished r.id (.failed .timeout))) →
      (∀ q o, s.Logs acts q (.finished r.id o) → o = .response a)
        ∧ (s.Fair acts → ∃ q, s.Logs acts q (.finished r.id (.response a))) := by
  intro s r place a hkept halone hfirst htimely
  have hr : s.Regular := regular_new config catalog deviceOpens
  have hreplies : Replies (fun _ : Unit => r) (fun _ => place) fun _ => a :=
    ⟨fun _ => hfirst.offered, fun _ => hfirst.header, fun _ => hfirst.since, fun _ => htimely⟩
  exact hreplies.returns hr (fun _ => rfl) (fun _ => hkept) (fun _ _ _ => rfl)
    (hfirst.takeTurns hr halone) ()

/-- A request whose response arrives before its fragment is acknowledged, which never happens. -/
theorem first_reply_returned_unacknowledged :
    let reply : Definition := ⟨"Tell", .of .response 0x77, [⟨"N", .u8, false⟩], false, none⟩
    let request : Act :=
      .start (.request ⟨⟨"Ask", .of .request 0x77, [], true, some reply⟩, [], false⟩ 5000)
    let answer := ((Frame.single (.ofHeader reply.header [7])).stamp 1).encode
    let s := Session.new (.forDevice "tty") (.insert .empty reply) true
    let acts := thenRest [.attach, request, .turn (.task 0), .arrive 1 answer, .turn (.reader 1),
      .elapse 1000, .turn (.task 0)]
    ∃ (r : s.Request acts) (place : Nat) (a : Command), r.Kept ∧ r.Among (· = r.listener)
      ∧ r.FirstReply place a ∧ s.Fair acts
      ∧ ∃ q, s.Logs acts q (.finished r.id (.response a)) := by
  intro reply request answer s acts
  let moves : List Act := [.attach, request, .turn (.task 0), .arrive 1 answer, .turn (.reader 1),
    .elapse 1000, .turn (.task 0)]
  have htasks : (s.run moves).tasks.map (·.1) = [] := by decide +kernel
  have hdone : (s.run moves).tasks = [] := List.map_eq_nil_iff.mp htasks
  have hissue : Issue (s.trail acts 2) (acts 2) 0
      ⟨⟨"Ask", .of .request 0x77, [], true, some reply⟩, [], false⟩ (.anyOf reply) :=
    ⟨rfl, ⟨5000, rfl⟩, ⟨1, .ofHeader (.of .request 0x77) [], rfl⟩⟩
  let r : s.Request acts := ⟨0, 2, _, _, hissue⟩
  obtain ⟨hkept, hlistener⟩ : r.Kept ∧ r.listener = 0 := by
    have hup : ∀ n < 7, 2 ≤ n →
        ((s.run (moves.take n)).line? 1).any (fun l => !l.link.closed) = true := by decide +kernel
    refine Request.kept_thenRest 1 hdone ?_ ?_ hup (by simp [request, Act.handles])
    · exact (by decide +kernel : (s.run (moves.take 2)).current = some 1)
    · exact (by decide +kernel : (s.run (moves.take 2)).registry.nextId = 0)
  have halone : r.Among (· = r.listener) := by
    rw [hlistener]
    have hlisteners : ∀ n < 7, ∀ k ∈ (s.run (moves.take n)).registry.listeners.map (·.1), k = 0 := by
      decide +kernel
    exact Request.among_thenRest hdone hlisteners
  have hfair : s.Fair acts := fair_thenRest hdone
  have hheaders : (s.run moves).log.map (fun e => e.command?.map Command.header)
      = [none, some reply.header, none] := by decide +kernel
  have hgist : (s.run moves).log.map Event.gist
      = [(some 0, false, none), (none, true, none), (none, false, some 0)] := by decide +kernel
  have hsince : r.since = 0 := by
    have hstart : (s.run (moves.take 2)).log.length = 0 := by decide +kernel
    exact (congrArg (·.log.length) (s.trail_thenRest moves (by decide))).trans hstart
  have hlogs : ∀ {p e}, s.Logs acts p e → (s.run moves).log[p]? = some e := logs_thenRest.mp
  obtain ⟨a, ha, hheader⟩ : ∃ a, (s.run moves).log[1]? = some (.dispatched a)
      ∧ a.header = reply.header := dispatched_of_header (by rw [hheaders]; rfl)
  have hfirst : r.FirstReply 1 a := by
    refine ⟨logs_thenRest.mpr ha, hheader, hsince ▸ Nat.zero_le 1, fun p d _ hp hd => ?_⟩
    obtain rfl := Nat.lt_one_iff.mp hp
    have hkind := gist_of_getElem? (hlogs hd)
    rw [hgist] at hkind
    exact absurd hkind (by simp [Event.gist])
  have htimely : ∀ q < 1, ¬s.Logs acts q (.finished r.id (.failed .timeout)) := by
    intro q hq hlate
    obtain rfl := Nat.lt_one_iff.mp hq
    have hkind := gist_of_getElem? (hlogs hlate)
    rw [hgist] at hkind
    exact absurd hkind (by simp [Event.gist])
  refine ⟨r, 1, a, hkept, halone, hfirst, hfair, ?_⟩
  exact (first_reply_returned _ _ _ acts r 1 a hkept halone hfirst htimely).2 hfair

end NcpHost.Session
