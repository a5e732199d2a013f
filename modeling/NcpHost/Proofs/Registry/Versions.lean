import NcpHost.Proofs.Registry.Dispatch

/-! Patterns and buckets. A pattern matches a command whatever the version of the protocol, and a bucket
is for one version. A command reaches all who hear it exactly if those who can do something with it
stand under its whole header; where all patterns that match it are of its version, they do. -/

namespace NcpHost.Registry

variable {κ : Type} {r : Registry κ} {c d : Command} {given : List (Listener κ)}

def hearers (r : Registry κ) (c : Command) : List (ListenerId × Listener κ) :=
  r.listeners.filter fun (_, l) => l.hears c

/-- The listener can do something with a command: it is an indication, or can still be completed. -/
def isLive (r : Registry κ) (e : ListenerId × Listener κ) : Bool :=
  !e.2.isOneShot || (r.slot e.1).live

structure Reaches (r : Registry κ) (c : Command) : Prop where
  matched : (∃ e ∈ r.hearers c, r.isLive e = true) → (r.dispatch c).2.matched = true
  callbacks : (r.dispatch c).2.callbacks = (r.hearers c).filterMap (·.2.callback?)

/-- Those who hear a command stand under its header: all indications, and somebody who can do something
with it if there is anybody. -/
structure Gathered (r : Registry κ) (c : Command) : Prop where
  indications : ∀ e ∈ r.hearers c, e.2.isOneShot = false → c.header ∈ e.2.headers
  somebody : (∃ e ∈ r.hearers c, r.isLive e = true) →
    ∃ e ∈ r.hearers c, r.isLive e = true ∧ c.header ∈ e.2.headers

/-- Whoever hears the command does so by patterns of its version only. -/
def OneVersion (r : Registry κ) (c : Command) : Prop :=
  ∀ e ∈ r.hearers c, ∀ p ∈ e.2.patterns, p.covers c = true → p.header.version = c.header.version

theorem audience_eq (r : Registry κ) (c : Command) :
    r.audience c = (r.hearers c).filter fun e => decide (c.header ∈ e.2.headers) := by
  simp [audience, hearers, List.filter_filter]

theorem mem_audience_iff {e : ListenerId × Listener κ} :
    e ∈ r.audience c ↔ e ∈ r.hearers c ∧ c.header ∈ e.2.headers := by
  simp [audience_eq]

theorem isSome_callback? (l : Listener κ) : l.callback?.isSome = !l.isOneShot := by
  cases h : l.role <;> simp [Listener.callback?, Listener.isOneShot, h]

theorem isSome_winner?_iff :
    (r.winner? c).isSome = true
      ↔ ∃ e ∈ r.audience c, e.2.isOneShot = true ∧ (r.slot e.1).live = true := by
  simp [winner?]

theorem hearers_congr (r : Registry κ) (hnames : d.header.names c.header = true)
    (hvalues : d.values = c.values) : r.hearers d = r.hearers c := by
  have hsame : ∀ p : Command, p.covers d = p.covers c := by
    intro p
    have hheader : p.header.names d.header = p.header.names c.header := by
      simp only [CommandHeader.names, Bool.and_eq_true, beq_iff_eq] at hnames ⊢
      rw [hnames.1, hnames.2]
    rw [Command.covers, Command.covers, hheader, hvalues]
  simp only [hearers, Listener.hears, hsame]

theorem mem_headers_of_hears {l : Listener κ} (hhears : l.hears c = true)
    (hversion : ∀ p ∈ l.patterns, p.covers c = true → p.header.version = c.header.version) :
    c.header ∈ l.headers := by
  obtain ⟨p, hp, hcovers⟩ := List.any_eq_true.mp hhears
  have hsame := hversion p hp hcovers
  simp only [Command.covers, CommandHeader.names, Bool.and_eq_true, beq_iff_eq] at hcovers
  rw [l.mem_headers]
  refine ⟨p, hp, ?_⟩
  cases hheader : p.header
  simp_all

theorem OneVersion.gathered (h : OneVersion r c) : Gathered r c := by
  have hunder : ∀ e ∈ r.hearers c, c.header ∈ e.2.headers := by
    intro e he
    exact mem_headers_of_hears (List.mem_filter.mp he).2 (h e he)
  exact ⟨fun e he _ => hunder e he, fun ⟨e, he, hlive⟩ => ⟨e, he, hlive, hunder e he⟩⟩

theorem filterMap_filter_eq_iff {α β : Type} (f : α → Option β) (p : α → Bool) (l : List α) :
    (l.filter p).filterMap f = l.filterMap f ↔ ∀ a ∈ l, (f a).isSome = true → p a = true := by
  induction l with
  | nil => simp
  | cons a rest ih =>
    cases hp : p a with
    | true => cases hf : f a <;> simp [hp, hf, ih]
    | false =>
      cases hf : f a with
      | none => simp [hp, hf, ih]
      | some b =>
        have hshort : ((rest.filter p).filterMap f).length ≤ (rest.filterMap f).length :=
          (List.filter_sublist.filterMap f).length_le
        have hne : (rest.filter p).filterMap f ≠ b :: rest.filterMap f := by
          intro heq
          rw [heq, List.length_cons] at hshort
          omega
        simp [hp, hf, hne]

theorem Numbered.matched_iff_live (h : Numbered given r) (c : Command) :
    (r.dispatch c).2.matched = true
      ↔ ∃ e ∈ r.hearers c, r.isLive e = true ∧ c.header ∈ e.2.headers := by
  rw [matched_iff (h.callbacks c), h.completed, isSome_winner?_iff]
  constructor
  · rintro (⟨e, he, hind⟩ | ⟨e, he, -, hlive⟩)
    · obtain ⟨hhears, hheader⟩ := mem_audience_iff.mp he
      exact ⟨e, hhears, by simp [isLive, hind], hheader⟩
    · obtain ⟨hhears, hheader⟩ := mem_audience_iff.mp he
      exact ⟨e, hhears, by simp [isLive, hlive], hheader⟩
  · intro ⟨e, hhears, hlive, hheader⟩
    have he := mem_audience_iff.mpr ⟨hhears, hheader⟩
    cases hone : e.2.isOneShot with
    | false => exact Or.inl ⟨e, he, hone⟩
    | true => exact Or.inr ⟨e, he, hone, by simpa [isLive, hone] using hlive⟩

theorem Numbered.callbacks_eq (h : Numbered given r) (c : Command) :
    (r.dispatch c).2.callbacks
      = ((r.hearers c).filter fun e => decide (c.header ∈ e.2.headers)).filterMap (·.2.callback?) := by
  rw [h.callbacks, audience_eq]

theorem callbacks_audience_eq_iff (r : Registry κ) (c : Command) :
    (r.audience c).filterMap (·.2.callback?) = (r.hearers c).filterMap (·.2.callback?)
      ↔ ∀ e ∈ r.hearers c, e.2.isOneShot = false → c.header ∈ e.2.headers := by
  rw [audience_eq, filterMap_filter_eq_iff]
  simp [isSome_callback?]

theorem Numbered.reaches_iff (h : Numbered given r) (c : Command) : Reaches r c ↔ Gathered r c := by
  have hcallbacks : (r.dispatch c).2.callbacks = (r.hearers c).filterMap (·.2.callback?)
      ↔ ∀ e ∈ r.hearers c, e.2.isOneShot = false → c.header ∈ e.2.headers := by
    rw [h.callbacks]
    exact callbacks_audience_eq_iff r c
  constructor
  · intro hr
    exact ⟨hcallbacks.mp hr.callbacks, fun hlive => (h.matched_iff_live c).mp (hr.matched hlive)⟩
  · intro hg
    exact ⟨fun hlive => (h.matched_iff_live c).mpr (hg.somebody hlive), hcallbacks.mpr hg.indications⟩

theorem Numbered.alike (h : Numbered given r) (hhearers : r.hearers d = r.hearers c)
    (hc : Reaches r c) (hd : Reaches r d) :
    (r.dispatch d).2.callbacks = (r.dispatch c).2.callbacks
      ∧ (r.dispatch d).2.matched = (r.dispatch c).2.matched := by
  have hmatched : ∀ b, Reaches r b →
      ((r.dispatch b).2.matched = true ↔ ∃ e ∈ r.hearers b, r.isLive e = true) := by
    intro b hb
    refine ⟨fun hm => ?_, hb.matched⟩
    obtain ⟨e, he, hlive, -⟩ := (h.matched_iff_live b).mp hm
    exact ⟨e, he, hlive⟩
  refine ⟨by rw [hd.callbacks, hc.callbacks, hhearers], ?_⟩
  rw [Bool.eq_iff_iff, hmatched d hd, hmatched c hc, hhearers]

/-- The callbacks that a command calls for: those of the indications that hear it and stand under its
whole header, in the order of registration. -/
def callees (r : Registry κ) (c : Command) : List (Callback κ) :=
  (r.audience c).filterMap (·.2.callback?)

def concerned (r : Registry κ) (c : Command) : List (Callback κ) :=
  (r.hearers c).filterMap (·.2.callback?)

theorem callees_sublist (r : Registry κ) (c : Command) : (r.callees c).Sublist (r.concerned c) := by
  rw [callees, audience_eq]
  exact List.filter_sublist.filterMap _

theorem Numbered.listeners_dispatch (h : Numbered given r) (c : Command) :
    (r.dispatch c).1.listeners = r.listeners.filter fun e => r.winner? c != some e.1 := by
  obtain ⟨-, hl, -, -⟩ := h.sound.offered_frame c
  have hcases := r.dispatch_cases c
  rw [h.completed] at hcases
  rcases hcases with ⟨hnone, heq⟩ | ⟨w, hw, heq⟩
  · rw [heq, hl, hnone]
    exact (List.filter_eq_self.mpr fun _ _ => rfl).symm
  · rw [heq, listeners_unregister, hl, hw]
    refine List.filter_congr fun e _ => ?_
    rw [Bool.eq_iff_iff, bne_iff_ne, bne_iff_ne, ne_eq, ne_eq, Option.some.injEq, eq_comm]

theorem Numbered.callees_dispatch (h : Numbered given r) (c d : Command) :
    (r.dispatch c).1.callees d = r.callees d := by
  have haudience : (r.dispatch c).1.audience d
      = (r.audience d).filter fun e => r.winner? c != some e.1 := by
    rw [audience, h.listeners_dispatch, List.filter_filter, audience, List.filter_filter]
    exact List.filter_congr fun e _ => Bool.and_comm _ _
  rw [callees, haudience, callees, filterMap_filter_eq_iff]
  intro e he hcalls
  -- the one that goes waits for one command
  refine bne_iff_ne.mpr fun hw => ?_
  obtain ⟨⟨id, l⟩, hfound, hid⟩ := Option.map_eq_some_iff.mp hw
  obtain rfl : id = e.1 := hid
  have hsame := (h.mem_audience.mp (List.mem_of_find?_eq_some hfound)).1
  obtain rfl := Option.some.inj (hsame.symm.trans (h.mem_audience.mp he).1)
  have hone := List.find?_some hfound
  rw [isSome_callback?] at hcalls
  simp_all

theorem Numbered.callees_dispatches (h : Numbered given r) (commands : List Command) :
    Numbered given (commands.foldl (fun r c => (r.dispatch c).1) r)
      ∧ ∀ d, (commands.foldl (fun r c => (r.dispatch c).1) r).callees d = r.callees d := by
  induction commands generalizing r with
  | nil => exact ⟨h, fun _ => rfl⟩
  | cons c rest ih =>
    obtain ⟨hnumbered, hcallees⟩ := ih (h.dispatch c)
    exact ⟨hnumbered, fun d => (hcallees d).trans (h.callees_dispatch c d)⟩

/-- What a command does is up to those who hear it and stand under its whole header. It reaches all who
hear it exactly if those are enough, as they are where it is heard by patterns of its version only.
Commands that differ in the version only are heard by the same listeners, and do the same if both
reach them. -/
theorem dispatch_reaches_iff (acts : List (Act κ)) (c : Command) :
    let r := (empty : Registry κ).run acts
    (r.dispatch c).2.callbacks
        = ((r.hearers c).filter fun e => decide (c.header ∈ e.2.headers)).filterMap (·.2.callback?)
      ∧ ((r.dispatch c).2.matched = true
        ↔ ∃ e ∈ r.hearers c, r.isLive e = true ∧ c.header ∈ e.2.headers)
      ∧ (Reaches r c ↔ Gathered r c)
      ∧ (OneVersion r c → Reaches r c)
      ∧ ∀ d : Command, d.header.names c.header = true → d.values = c.values →
        r.hearers d = r.hearers c ∧ (Reaches r c → Reaches r d →
          (r.dispatch d).2.callbacks = (r.dispatch c).2.callbacks
            ∧ (r.dispatch d).2.matched = (r.dispatch c).2.matched) := by
  intro r
  have h : Numbered (registered acts) r := numbered_run acts
  refine ⟨h.callbacks_eq c, h.matched_iff_live c, h.reaches_iff c,
    fun hv => (h.reaches_iff c).mpr hv.gathered, fun d hnames hvalues => ?_⟩
  have hhearers := hearers_congr r hnames hvalues
  exact ⟨hhearers, h.alike hhearers⟩

/-- Somebody subscribes to a report of version 1. The same report reaches the subscriber in version 1 and
is missed in version 0, although the pattern matches it. -/
theorem dispatch_reaches_iff_two_versions :
    let report : UInt8 → Definition := fun version =>
      ⟨"Report.Ind", ⟨version, .indication, 0x77⟩, [⟨"N", .u8, false⟩], false, none⟩
    let command : UInt8 → Command := fun version => ⟨report version, [some (.uint 7)], false⟩
    let r := (empty : Registry Nat).run
      [.register ⟨[Command.anyOf (report 1)], .indication (.inline 5)⟩]
    Reaches r (command 1) ∧ ¬Reaches r (command 0)
      ∧ r.hearers (command 0) = r.hearers (command 1)
      ∧ (r.dispatch (command 1)).2.callbacks.length = 1
      ∧ (r.dispatch (command 0)).2.matched = false := by
  intro report command r
  have hreach := fun version => dispatch_reaches_iff
    [.register ⟨[Command.anyOf (report 1)], .indication (.inline 5)⟩] (command version)
  obtain ⟨hcalls, -, -, hone, hversions⟩ := hreach 1
  obtain ⟨-, hmatched, hiff, -, -⟩ := hreach 0
  have hversion : OneVersion r (command 1) := by
    show ∀ e ∈ r.hearers (command 1), ∀ p ∈ e.2.patterns, _
    decide +kernel
  have hoff : ¬∀ e ∈ r.hearers (command 0), e.2.isOneShot = false →
      (command 0).header ∈ e.2.headers := by
    decide +kernel
  have hnobody : ¬∃ e ∈ r.hearers (command 0), r.isLive e = true
      ∧ (command 0).header ∈ e.2.headers := by
    decide +kernel
  refine ⟨hone hversion, fun h => hoff (hiff.mp h).indications,
    (hversions (command 0) (by decide) rfl).1, ?_, ?_⟩
  · refine (congrArg List.length hcalls).trans ?_
    decide +kernel
  · exact Bool.eq_false_iff.mpr fun h => hnobody (hmatched.mp h)

end NcpHost.Registry
