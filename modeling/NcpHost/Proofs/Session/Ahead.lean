import Mathlib.Data.List.TakeWhile
import NcpHost.Proofs.Session.Gate

/-! Those ahead of a task in line for a lock. Nobody gets ahead of somebody who stands in line: at every
step those ahead are as before, or fewer. While they are as before, the first of them stays where it is
with its send. -/

namespace NcpHost

theorem onward_trans {α : Type} (size : α → Nat) {x y z : α} (h : y = x ∨ size y < size x)
    (h' : z = y ∨ size z < size y) : z = x ∨ size z < size x := by
  rcases h with rfl | hlt
  · exact h'
  · rcases h' with rfl | hlt'
    · exact Or.inr hlt
    · exact Or.inr (Nat.lt_trans hlt' hlt)

namespace FairLock

def ahead (l : FairLock) (id : TaskId) : List TaskId := l.line.takeWhile (· != id)

variable {l l' : FairLock} {id k : TaskId}

theorem Fair.holder_ahead (h : l.Fair) (hid : id ∈ l.line) :
    l.holder = some ((l.ahead id).headD id) := by
  rw [h.holder_eq, ahead]
  cases hline : l.line with
  | nil => exact absurd (hline ▸ hid) List.not_mem_nil
  | cons x rest =>
    by_cases hx : x = id
    · simp [hx]
    · simp [hx]

theorem not_mem_ahead : id ∉ l.ahead id := fun h => by simpa using List.mem_takeWhile_imp h

theorem Fair.holder_iff (h : l.Fair) (hid : id ∈ l.line) :
    l.holder = some id ↔ l.ahead id = [] := by
  rw [h.holder_ahead hid]
  cases hahead : l.ahead id with
  | nil => exact iff_of_true rfl rfl
  | cons x rest =>
    refine iff_of_false (fun heq => ?_) (List.cons_ne_nil _ _)
    obtain rfl : x = id := Option.some.inj heq
    exact not_mem_ahead (hahead ▸ List.mem_cons_self)

theorem ahead_join (h : l.Fair) (hid : id ∈ l.line) (k : TaskId) :
    (l.join k).ahead id = l.ahead id := by
  rw [ahead, line_join l k h, ahead]
  revert hid
  induction l.line with
  | nil => exact fun hid => absurd hid List.not_mem_nil
  | cons x rest ih =>
    intro hid
    by_cases hx : x = id
    · simp [hx]
    · simpa [hx] using ih ((List.mem_cons.mp hid).resolve_left (Ne.symm hx))

theorem ahead_leave (h : l.line.Nodup) (hk : k ≠ id) :
    (l.leave k).ahead id = (l.ahead id).filter (· != k) := by
  rw [ahead, line_leave l k h, ahead]
  induction l.line with
  | nil => rfl
  | cons x rest ih =>
    by_cases hx : x = id
    · simp [hx, Ne.symm hk]
    · by_cases hxk : x = k
      · simpa [hxk, hk] using ih
      · simpa [hx, hxk] using ih

def Advances (l l' : FairLock) (id : TaskId) : Prop :=
  l'.ahead id = l.ahead id ∨ (l'.ahead id).length < (l.ahead id).length

theorem Advances.trans {l₂ : FairLock} (h : l.Advances l' id) (h' : l'.Advances l₂ id) :
    l.Advances l₂ id :=
  onward_trans List.length h h'

theorem length_ahead_leave (h : l.line.Nodup) (hk : k ∈ l.ahead id) :
    ((l.leave k).ahead id).length < (l.ahead id).length := by
  have hne : k ≠ id := by
    rintro rfl
    exact not_mem_ahead hk
  rw [ahead_leave h hne]
  exact List.length_filter_lt_length_iff_exists.mpr ⟨k, hk, by simp⟩

theorem headD_mem_ahead (h : (l.ahead id).headD id ≠ id) : (l.ahead id).headD id ∈ l.ahead id := by
  cases hahead : l.ahead id with
  | nil =>
    rw [hahead] at h
    exact absurd rfl h
  | cons x rest => exact List.mem_cons_self

theorem Fair.holder_mem_ahead (h : l.Fair) (hid : id ∈ l.line) (hk : l.holder = some k)
    (hne : k ≠ id) : k ∈ l.ahead id := by
  obtain rfl := Option.some.inj (hk.symm.trans (h.holder_ahead hid))
  exact headD_mem_ahead hne

theorem advances_leave (h : l.line.Nodup) (hk : k ≠ id) : Advances l (l.leave k) id := by
  by_cases hm : k ∈ l.ahead id
  · exact Or.inr (length_ahead_leave h hm)
  · refine Or.inl ((ahead_leave h hk).trans (List.filter_eq_self.mpr fun x hx => ?_))
    exact bne_iff_ne.mpr fun heq => hm (heq ▸ hx)

end FairLock

namespace Verdict

theorem tell_outstanding (verdict : Verdict) (deadline : Nat) (told : Option Verdict) :
    ∃ told', verdict.tell (some (.outstanding deadline told)) = some (.outstanding deadline told') := by
  cases told with
  | none => exact ⟨some verdict, rfl⟩
  | some v => exact ⟨some v, rfl⟩

end Verdict

namespace Session

def Awaits (stage stage' : Option SendStage) : Prop :=
  ∀ deadline told, stage = some (.outstanding deadline told) →
    ∃ told', stage' = some (.outstanding deadline told')

theorem awaits_of_eq {stage stage' : Option SendStage} (h : stage' = stage) :
    Awaits stage stage' :=
  fun _ told hs => ⟨told, h.trans hs⟩

theorem awaits_tell {stage stage' : Option SendStage} {verdict : Verdict}
    (h : stage' = verdict.tell stage) : Awaits stage stage' := by
  rintro deadline told rfl
  rw [h]
  exact verdict.tell_outstanding deadline told

section

variable {s s' : Session} {act : Act} {id : TaskId} {line : LineId} {l l' : Link}

theorem Tended.awaits (h : Tended l l') (hs : l.Sound) (k : TaskId) :
    Awaits (l.stage? k) (l'.stage? k) := by
  cases h with
  | same hsends => exact awaits_of_eq (by rw [Link.stage?, hsends, Link.stage?])
  | heard frame =>
    have hstage := hs.accept_stage? frame k
    split at hstage
    · exact awaits_tell hstage
    · exact awaits_of_eq hstage

theorem proceeds_awaits {now : Nat} (h : l.Proceeds id now l' none) (k : TaskId) :
    Awaits (l.stage? k) (l'.stage? k) := by
  by_cases hk : k = id
  · subst hk
    cases h with
    | gone | behind => exact awaits_of_eq rfl
    | writes hs =>
      intro d told hd
      exact absurd (hs.symm.trans hd) nofun
    | waits hs =>
      intro d told hd
      obtain ⟨rfl, -⟩ := SendStage.outstanding.inj (Option.some.inj (hs.symm.trans hd))
      exact ⟨none, (Link.stage?_setStage l k _ k).trans (if_pos rfl)⟩
  · exact awaits_of_eq (h.keeps.2.2 k hk)

theorem proceeds_holder {now : Nat} {result : Except Fault Unit} (hs : l.Sound)
    (h : l.Proceeds id now l' (some result)) : l.sendLock.holder = some id := by
  by_contra hne
  exact absurd (hs.behind (Bool.eq_false_iff.mpr fun hh => hne (beq_iff_eq.mp hh)) h).2 nofun

theorem proceeds_fewer_ahead {k : TaskId} {now : Nat} {result : Except Fault Unit} (hs : l.Sound)
    (h : l.Proceeds k now l' (some result)) (hid : id ∈ l.sendLock.line) (hne : k ≠ id) :
    (l'.sendLock.ahead id).length < (l.sendLock.ahead id).length := by
  rw [h.leaves]
  exact FairLock.length_ahead_leave hs.nodup (hs.fair.holder_mem_ahead hid (proceeds_holder hs h) hne)

theorem proceeds_ahead_enter {k : TaskId} {now : Nat} {result : Except Fault Unit} (hs : l.Sound)
    (h : l.Proceeds k now l' (some result)) (hid : id ∈ l.sendLock.line) (hne : k ≠ id)
    (frame : Frame) : (l'.enter k frame).sendLock.ahead id = l'.sendLock.ahead id := by
  refine FairLock.ahead_join (h.sound hs).fair ?_ k
  rw [h.leaves]
  exact (FairLock.mem_line_leave hs.nodup).mpr ⟨hid, hne.symm⟩

theorem Shift.ahead (h : Shift act s s' line l l') (hs : l.Sound)
    (hsits : ∀ k, k ∈ l.sendLock.line ↔ s.sitsAt line k) (hid : s.sitsAt line id)
    (htask : s'.task? id = s.task? id) :
    (l'.sendLock.ahead id).length < (l.sendLock.ahead id).length
      ∨ l'.sendLock.ahead id = l.sendLock.ahead id
        ∧ Awaits (l.stage? ((l.sendLock.ahead id).headD id))
          (l'.stage? ((l.sendLock.ahead id).headD id)) := by
  have hin : id ∈ l.sendLock.line := (hsits id).mpr hid
  have hholder := hs.fair.holder_ahead hin
  have hid' : s'.sitsAt line id := by
    rw [sitsAt, seat?, htask]
    exact hid
  have hsame : l'.sendLock = l.sendLock → (∀ k, Awaits (l.stage? k) (l'.stage? k)) →
      (l'.sendLock.ahead id).length < (l.sendLock.ahead id).length
        ∨ l'.sendLock.ahead id = l.sendLock.ahead id
          ∧ Awaits (l.stage? ((l.sendLock.ahead id).headD id))
            (l'.stage? ((l.sendLock.ahead id).headD id)) :=
    fun hk hstage => Or.inr ⟨congrArg (FairLock.ahead · id) hk, hstage _⟩
  cases h with
  | tends _ ht => exact hsame ht.keeps.1 (ht.awaits hs)
  | closes => exact hsame l.close_frame.1 fun k => awaits_tell (hs.close_stage? k)
  | drops => exact hsame rfl fun _ => awaits_of_eq rfl
  | @enters k frame hout =>
    have hk : k ∉ l.sendLock.line := fun hm => hout ((hsits k).mp hm)
    refine Or.inr ⟨FairLock.ahead_join hs.fair hin k, awaits_of_eq ?_⟩
    refine (Link.stage?_setStage l k (.queued frame) _).trans (if_neg ?_)
    rintro heq
    exact hk (heq ▸ FairLock.mem_line_of_holder hholder)
  | stays _ hp => exact hsame hp.stays (proceeds_awaits hp)
  | @leaves k _ _ _ hleft hp =>
    have hk : k ≠ id := fun heq => ((hleft id).mp hid').2 heq.symm
    exact Or.inl (proceeds_fewer_ahead hs hp hin hk)
  | @follows k _ l₁ frame hsits₀ hmoved hseats hp =>
    have hk : k ≠ id := by
      rintro rfl
      exact hmoved htask
    rw [proceeds_ahead_enter hs hp hin hk frame]
    exact Or.inl (proceeds_fewer_ahead hs hp hin hk)
  | aborts k hleft =>
    have hk : k ≠ id := fun heq => ((hleft id).mp hid').2 heq.symm
    rcases FairLock.advances_leave hs.nodup hk with heq | hlt
    · refine Or.inr ⟨heq, awaits_of_eq ((Link.stage?_abort l k _).trans (if_neg ?_))⟩
      rintro rfl
      -- it would have been ahead
      have hlt := FairLock.length_ahead_leave hs.nodup (FairLock.headD_mem_ahead hk)
      rw [heq] at hlt
      exact absurd hlt (Nat.lt_irrefl _)
    · exact Or.inl hlt

end

end Session

end NcpHost
