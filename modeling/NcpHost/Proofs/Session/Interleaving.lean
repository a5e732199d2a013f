import Mathlib.Data.List.Infix
import NcpHost.Proofs.Session.Together
import NcpHost.Proofs.Session.Undisturbed

/-! Requests that run at the same time. The link is given away behind every fragment, so that the
fragments of a request stay together if and only if nobody waits for the link while the one that
holds it has fragments left. Then, and only then, the far end gets what was sent. -/

namespace NcpHost.Session

open Wire

def Stage.hasSent : Stage → Bool
  | .fresh (.request _ _) | .fresh .version | .gated _ _ | .sending _ _ => false
  | _ => true

/-- A request holds the link of its line and has fragments left behind the one that is there, and
somebody else waits for this link. -/
def crowded (s : Session) : Bool :=
  s.tasks.any fun (id, t) => match t with
    | .sending e (_ :: _) => match s.line? e.line with
      | some l => l.link.sendLock.holds id && !l.link.sendLock.waiting.isEmpty
      | none => false
    | _ => false

def stream (s : Session) (id : LineId) : List UInt8 := ((s.line? id).map Line.stream).getD []

section

variable {s : Session} {w : Wire}

theorem Mirrors.sending_of_mem_line (h : Mirrors none s w) {id : TaskId} (hid : id ∈ w.line) :
    ∃ e unsent, (id, .sending e unsent) ∈ s.tasks ∧ e.line = 1 ∧ w.behind id = unsent := by
  have hschedule := mem_schedule h.sound hid
  have hm : id ∈ s.tasks.map (·.1) := not_not.mp fun hn => (h.gone id hn).1 hid
  obtain ⟨⟨k, t⟩, ht, hk⟩ := List.mem_map.mp hm
  obtain rfl : k = id := hk
  have hplaced := h.placed _ ht nofun
  cases t with
  | sending e unsent => exact ⟨e, unsent, ht, hplaced.1, hplaced.2.2⟩
  | gated e unsent => exact absurd hschedule hplaced.2.1
  | fresh job =>
    cases job with
    | request c timeout => exact absurd hschedule hplaced.1
    | version => exact absurd hid hplaced.2
    | reset option wait => exact hplaced.elim
    | wait listener => exact absurd hid hplaced.1
    | callback deed command => exact absurd hid hplaced.1
  | resetGated request wait => exact hplaced.elim
  | resetSending line wait lossSeen => exact hplaced.elim
  | resetWaiting deadline lossSeen => exact hplaced.elim
  | reconnecting attempt due => exact hplaced.elim
  | answering e deadline => exact absurd hid hplaced.1
  | waiting listener => exact absurd hid hplaced.1
  | dozing deed command due => exact absurd hid hplaced.1

theorem Mirrors.owed_of_hasSent (h : Mirrors none s w) {id : TaskId} {t : Stage}
    (hm : (id, t) ∈ s.tasks) (ht : t.hasSent = true) : w.owed id = [] := by
  have hplaced := h.placed _ hm nofun
  cases t with
  | sending e unsent => exact absurd ht nofun
  | gated e unsent => exact absurd ht nofun
  | fresh job =>
    cases job with
    | request c timeout => exact absurd ht nofun
    | version => exact absurd ht nofun
    | reset option wait => exact hplaced.elim
    | wait listener => exact hplaced.2
    | callback deed command => exact hplaced.2
  | resetGated request wait => exact hplaced.elim
  | resetSending line wait lossSeen => exact hplaced.elim
  | resetWaiting deadline lossSeen => exact hplaced.elim
  | reconnecting attempt due => exact hplaced.elim
  | answering e deadline => exact hplaced.2
  | waiting listener => exact hplaced.2
  | dozing deed command due => exact hplaced.2

theorem Mirrors.sent_all (h : Mirrors none s w) (hsent : ∀ e ∈ s.tasks, e.2.hasSent = true) :
    w.line = [] ∧ ∀ id, w.owed id = [] := by
  constructor
  · refine List.eq_nil_iff_forall_not_mem.mpr fun id hid => ?_
    obtain ⟨e, unsent, hm, -, -⟩ := h.sending_of_mem_line hid
    exact Bool.false_ne_true (hsent _ hm)
  · intro id
    by_cases hm : id ∈ s.tasks.map (·.1)
    · obtain ⟨⟨k, t⟩, ht, rfl⟩ := List.mem_map.mp hm
      exact h.owed_of_hasSent ht (hsent _ ht)
    · exact (h.gone id hm).2

theorem Mirrors.crowded_iff (h : Mirrors none s w) : s.crowded = true ↔ w.Crowded := by
  obtain ⟨l, hl?, -, hfollows⟩ := h.line_eq
  constructor
  · intro hc
    obtain ⟨⟨id, t⟩, hm, ht⟩ := List.any_eq_true.mp hc
    dsimp only at ht
    split at ht
    · next e f rest =>
      obtain ⟨he, -, hbehind⟩ := h.placed _ hm nofun
      rw [he, hl?] at ht
      obtain ⟨hholds, hwaiting⟩ := Bool.and_eq_true_iff.mp ht
      obtain ⟨line, hline⟩ := List.head?_eq_some_iff.mp ((hfollows.queue.holds id).mp hholds)
      rw [(hfollows.queue.lock_eq hline).2] at hwaiting
      cases line with
      | nil => exact absurd hwaiting nofun
      | cons j others => exact ⟨id, j, others, hline, hbehind ▸ List.cons_ne_nil f rest⟩
    · exact absurd ht nofun
  · intro ⟨i, j, others, hline, hbehind⟩
    obtain ⟨e, unsent, hm, he, hunsent⟩ := h.sending_of_mem_line (hline ▸ List.mem_cons_self)
    obtain ⟨f, rest, rfl⟩ := List.exists_cons_of_ne_nil (hunsent ▸ hbehind)
    obtain ⟨hholds, hwaiting⟩ := hfollows.queue.lock_eq hline
    refine List.any_eq_true.mpr ⟨_, hm, ?_⟩
    dsimp only
    rw [he, hl?]
    dsimp only
    rw [hholds, hwaiting]
    rfl

theorem header_of_packetOf? {c : Command} {p : Packet} (h : packetOf? c = some p) :
    p.header.isSome = true := by
  unfold packetOf? at h
  split at h
  · split at h
    · next hp =>
      obtain rfl := Option.some.inj h
      unfold Command.toPacket at hp
      split at hp
      · exact absurd hp nofun
      · obtain rfl := Except.ok.inj hp
        rfl
    · exact absurd h nofun
  · exact absurd h nofun

theorem header_of_versionPacket? {tsn : UInt8} {p : Packet} (h : versionPacket? tsn = some p) :
    p.header.isSome = true := by
  unfold versionPacket? at h
  split at h
  · exact header_of_packetOf? h
  · exact absurd h nofun

theorem header_of_brought? {act : Act} {p : Packet} (h : s.brought? act = some p) :
    p.header.isSome = true := by
  unfold brought? at h
  split at h
  · next job =>
    cases job with
    | request c timeout => exact header_of_packetOf? h
    | _ => exact absurd h nofun
  · unfold queried? at h
    split at h
    · exact header_of_versionPacket? h
    · exact absurd h nofun
  · exact absurd h nofun

theorem header_of_mem_brought {acts : List Act} {p : Packet} (h : p ∈ s.brought acts) :
    p.header.isSome = true := by
  induction acts generalizing s with
  | nil => exact absurd h List.not_mem_nil
  | cons act acts ih =>
    rcases List.mem_append.mp h with hone | hlater
    · exact header_of_brought? (Option.mem_toList.mp hone)
    · exact ih hlater

theorem brought_append (s : Session) (before after : List Act) :
    s.brought (before ++ after) = s.brought before ++ (s.run before).brought after := by
  induction before generalizing s with
  | nil => rfl
  | cons act before ih =>
    rw [List.cons_append, brought, brought, ih, List.append_assoc]
    rfl

theorem Mirrors.run_gathered (h : Mirrors none s w) {acts : List Act}
    (hacts : ∀ act ∈ acts, act.isUndisturbed = true)
    (hcalm : ∀ before, before <+: acts → (s.run before).crowded = false)
    (hg : Gathered w.schedule) :
    ∃ w', Mirrors none (s.run acts) w' ∧ Gathered w'.schedule
      ∧ w'.requests.map (·.2) = w.requests.map (·.2) ++ s.brought acts := by
  induction acts generalizing s w with
  | nil => exact ⟨w, h, hg, (List.append_nil _).symm⟩
  | cons act acts ih =>
    obtain ⟨w₁, hone, hwent⟩ := h.perform (hacts act List.mem_cons_self)
    have hnow : ¬w.Crowded := by
      rw [← h.crowded_iff]
      exact Bool.eq_false_iff.mp (hcalm [] List.nil_prefix)
    obtain ⟨w', hrun, hg', hrequests⟩ :=
      ih hone (fun a ha => hacts a (List.mem_cons_of_mem _ ha))
        (fun before hb => hcalm (act :: before) (List.cons_prefix_cons.mpr ⟨rfl, hb⟩))
        (hwent.gathered hnow hg)
    refine ⟨w', hrun, hg', ?_⟩
    rw [hrequests, hwent.requests, List.append_assoc]
    rfl

/-- Where everything is sent, what is together is told by the line of requests. -/
theorem Mirrors.together_iff {packets : List Packet} (h : Mirrors none s w)
    (hsent : ∀ e ∈ s.tasks, e.2.hasSent = true) (hrequests : w.requests.map (·.2) = packets)
    (hp : ∀ p ∈ packets, p.header.isSome = true) :
    Together packets (s.written.map (·.2)) ↔ Gathered (w.sent.map (·.1)) := by
  subst hrequests
  rw [h.written]
  exact Wire.together_iff h.sound (h.sent_all hsent).2 fun e he => hp e.2 (List.mem_map_of_mem he)

theorem Mirrors.carries (h : Mirrors none s w) :
    Frame.Carries (s.written.map (·.2)) (s.stream 1) := by
  obtain ⟨l, hl, -, hfollows⟩ := h.line_eq
  rw [h.written, Session.stream, hl]
  exact hfollows.carries

end

/-- In a run in which nothing is given up and nothing goes away, and all requests get to send, the
fragments of each request stay together if and only if it is never crowded. If they do, a far end
that collects what is not an acknowledgement gets the packet of each request once. -/
theorem together_iff_never_crowded (config : Config) (catalog : Catalog) (deviceOpens : Bool)
    {acts : List Act} (hacts : ∀ act ∈ acts, act.isUndisturbed = true) :
    let attached := (Session.new config catalog deviceOpens).attach
    let packets := attached.1.brought acts
    let ended := attached.1.run acts
    (∀ e ∈ ended.tasks, e.2.hasSent = true) →
      (Together packets (ended.written.map (·.2))
        ↔ ∀ before, before <+: acts → (attached.1.run before).crowded = false)
      ∧ (Together packets (ended.written.map (·.2)) →
        ∀ chunks : List (List UInt8), chunks.flatten = ended.stream attached.2 →
          ∃ order, order.Perm packets
            ∧ collectAll [] ((Stream.feed [] chunks).1.filter (!·.isAck)) = ([], order)) := by
  intro attached packets ended hsent
  have hstart : Mirrors none attached.1 .idle := mirrors_attach config catalog deviceOpens
  have hheaders : ∀ p ∈ packets, p.header.isSome = true := fun p hm => header_of_mem_brought hm
  refine ⟨⟨fun htogether before hb => ?_, fun hcalm => ?_⟩, fun htogether chunks hc => ?_⟩
  · -- someone who comes back behind another one is in two places
    obtain ⟨after, rfl⟩ := hb
    refine Bool.eq_false_iff.mpr fun hcrowded => ?_
    obtain ⟨w₁, hbefore, -, hrequests₁⟩ :=
      hstart.run fun a ha => hacts a (List.mem_append_left _ ha)
    obtain ⟨w', hended, hmoves, hrequests⟩ :=
      hbefore.run fun a ha => hacts a (List.mem_append_right _ ha)
    rw [← run_append] at hended
    rw [hrequests₁, List.append_assoc, ← brought_append] at hrequests
    obtain ⟨hline, howed⟩ := hended.sent_all hsent
    exact not_gathered_of_crowded hbefore.sound (hbefore.crowded_iff.mp hcrowded) hmoves hline howed
      ((hended.together_iff hsent hrequests hheaders).mp htogether)
  · -- nobody comes back behind another one, so those together stay together
    obtain ⟨w', hended, hg, hrequests⟩ := hstart.run_gathered hacts hcalm fun i j hs => absurd hs nofun
    refine (hended.together_iff hsent hrequests hheaders).mpr (hg.of_sublist ?_)
    exact List.sublist_append_left _ _
  · obtain ⟨w', hended, -⟩ := hstart.run hacts
    exact htogether.collected hheaders hended.carries hc

/-- Two requests of two fragments each. Started together they take turns at the link, and part each
other's fragments; one behind the other they do not. -/
theorem together_iff_never_crowded_two_requests :
    let d : Definition := ⟨"Bulk", .of .request 0x77, [⟨"Data", .remaining, false⟩], false,
      some ⟨"Bulk", .of .response 0x77, [], false, none⟩⟩
    let request := fun b : UInt8 =>
      Act.start (.request ⟨d, [some (.bytes (List.replicate 300 b))], false⟩ 5000)
    let attached := (Session.new (.forDevice "tty") .empty true).attach.1
    let stands := fun acts =>
      Together (attached.brought acts) ((attached.run acts).written.map (·.2))
    let first := Act.turn (.task 0)
    let second := Act.turn (.task 1)
    let atOnce := [request 0xAA, request 0xBB, first, second, .elapse 1000, first, second,
      .elapse 2000, second, first, .elapse 3000, first, second, .elapse 4000, second]
    let inTurn := [request 0xAA, first, .elapse 1000, first, .elapse 2000, first, request 0xBB, second,
      .elapse 3000, second, .elapse 4000, second]
    ¬stands atOnce ∧ stands inTurn := by
  intro d request attached stands first second atOnce inTurn
  constructor
  · intro htogether
    have hacts : ∀ act ∈ atOnce, act.isUndisturbed = true := by decide
    have hended := together_iff_never_crowded (.forDevice "tty") .empty true hacts (by decide +kernel)
    have hcrowded : (attached.run [request 0xAA, request 0xBB, first, second]).crowded = true := by
      decide +kernel
    exact Bool.eq_false_iff.mp (hended.1.mp htogether _ ⟨_, rfl⟩) hcrowded
  · have hacts : ∀ act ∈ inTurn, act.isUndisturbed = true := by decide
    have hended := together_iff_never_crowded (.forDevice "tty") .empty true hacts (by decide +kernel)
    have hcalm : ∀ before ∈ inTurn.inits, (attached.run before).crowded = false := by
      decide +kernel
    exact hended.1.mpr fun before hb => hcalm before ((List.mem_inits _ _).mpr hb)

end NcpHost.Session
