import NcpHost.Command.Basic
import NcpHost.Proofs.Command.Field

/-! Commands that were built complete come back from their packets. A complete command has a value for
every required field, a prefix of the optional ones, and no value that its field refuses; its packet
then tells where each value ends, and where the payload ends the fields that are left were not set.
Only an optional field that takes everything that is left can be set without leaving a trace: one that
is set to nothing comes back unset. -/

namespace NcpHost

namespace Command

theorem length_place {d : Definition} {params : List (String × Value)} :
    (place d params).length = d.fields.length := by
  unfold place
  refine List.foldlRecOn (motive := fun values : List (Option Value) =>
    values.length = d.fields.length) params _ (by simp) fun values hv param _ => ?_
  dsimp only
  split
  · rw [List.length_set, hv]
  · exact hv

theorem optional_of_missingNames {entries : List (Field × Option Value)}
    (h : missingNames entries = []) {f : Field} (hf : (f, none) ∈ entries) :
    f.optional = true := by
  have hnil := List.map_eq_nil_iff.mp h
  simpa using List.filter_eq_nil_iff.mp hnil _ hf

theorem unset_of_gap? {entries : List (Field × Option Value)} {skipped : Option String}
    (h : gap? skipped entries = none) (hs : skipped ≠ none) {f : Field} {v : Option Value}
    (hf : (f, v) ∈ entries) (ho : f.optional = true) : v = none := by
  fun_induction gap? skipped entries with
  | case1 => exact absurd hf List.not_mem_nil
  | case2 skipped g w rest hg ih =>
    rcases List.mem_cons.mp hf with he | hm
    · simp [← (Prod.mk.inj he).1, ho] at hg
    · exact ih h hs hm
  | case3 => exact absurd rfl hs
  | case4 => exact absurd h (Option.some_ne_none _)
  | case5 skipped g w rest hg hnone hsome ih =>
    rcases List.mem_cons.mp hf with he | hm
    · rw [(Prod.mk.inj he).2]
      cases w with
      | none => rfl
      | some x =>
        obtain ⟨s, rfl⟩ := Option.ne_none_iff_exists'.mp hs
        exact absurd rfl (hsome x s rfl)
    · exact ih h hs hm

/-- Behind an optional field that is not set, none is. -/
def Gapless (before after : Field × Option Value) : Prop :=
  before.1.optional = true → before.2 = none → after.1.optional = true → after.2 = none

theorem gapless_of_gap? {entries : List (Field × Option Value)} {skipped : Option String}
    (h : gap? skipped entries = none) : entries.Pairwise Gapless := by
  fun_induction gap? skipped entries with
  | case1 => exact List.Pairwise.nil
  | case2 skipped g w rest hg ih =>
    have hf : g.optional = false := by simpa using hg
    exact List.Pairwise.cons (fun _ _ ho => absurd (hf.symm.trans ho) Bool.false_ne_true) (ih h)
  | case3 g rest hg ih =>
    exact List.Pairwise.cons
      (fun after hm _ _ ho => unset_of_gap? h (Option.some_ne_none _) hm ho) (ih h)
  | case4 => exact absurd h (Option.some_ne_none _)
  | case5 skipped g w rest hg hnone hsome ih =>
    refine List.Pairwise.cons (fun after hm _ hw ho => ?_) (ih h)
    exact unset_of_gap? h (fun hs => hnone hw hs) hm ho

theorem check_of_refused? {entries : List (Field × Option Value)} (h : refused? entries = none)
    {f : Field} {v : Value} (hf : (f, some v) ∈ entries) : f.type.check v = .ok () := by
  fun_induction refused? entries with
  | case1 => exact absurd hf List.not_mem_nil
  | case2 g rest ih =>
    rcases List.mem_cons.mp hf with he | hm
    · exact absurd (Prod.mk.inj he).2 (Option.some_ne_none v)
    · exact ih h hm
  | case3 g w rest hw ih =>
    rcases List.mem_cons.mp hf with he | hm
    · obtain ⟨rfl, hv⟩ := Prod.mk.inj he
      rw [Option.some.inj hv, hw]
    · exact ih h hm
  | case4 => exact absurd h (Option.some_ne_none _)

structure Complete (entries : List (Field × Option Value)) : Prop where
  checked : ∀ f v, (f, some v) ∈ entries → f.type.check v = .ok ()
  required : ∀ f, (f, none) ∈ entries → f.optional = true
  gapless : entries.Pairwise Gapless

theorem bind_sound {d : Definition} {params : List (String × Value)} {isPattern : Bool} {c : Command}
    (h : bind d params isPattern = .ok c) :
    c.definition = d ∧ c.isPattern = isPattern ∧ c.values.length = d.fields.length
      ∧ (∀ f v, (f, some v) ∈ c.entries → f.type.check v = .ok ())
      ∧ (isPattern = false → Complete c.entries) := by
  unfold bind at h
  extract_lets unknown values entries missing gap at h
  split at h
  · exact absurd h nofun
  · split at h
    · exact absurd h nofun
    · next hmissing =>
      split at h
      · exact absurd h nofun
      · exact absurd h nofun
      · next hgap hrefused =>
        obtain rfl := Except.ok.inj h
        have hchecked : ∀ f v, (f, some v) ∈ entries → f.type.check v = .ok () :=
          fun f v => check_of_refused? hrefused
        refine ⟨rfl, rfl, length_place, hchecked, ?_⟩
        rintro rfl
        have hm : missingNames entries = [] := by simpa [missing] using hmissing
        exact ⟨hchecked, fun f => optional_of_missingNames hm, gapless_of_gap? hgap⟩

theorem make_complete {d : Definition} {params : List (String × Value)} {c : Command}
    (h : make d params = .ok c) :
    c.definition = d ∧ c.isPattern = false ∧ c.values.length = d.fields.length
      ∧ Complete c.entries := by
  obtain ⟨hd, hp, hlen, -, hcomplete⟩ := bind_sound h
  exact ⟨hd, hp, hlen, hcomplete rfl⟩

theorem toPacket_of_make {d : Definition} {params : List (String × Value)} {c : Command}
    (hm : make d params = .ok c) : c.toPacket = .ok (.ofHeader d.header (payload c.entries)) := by
  obtain ⟨rfl, hp, -, -⟩ := make_complete hm
  rw [toPacket, hp]
  rfl

/-- Fields and values whose written form can be read back: complete, with the optional fields behind
the required ones, and what takes everything that is left standing last and leaving a trace. -/
structure Readable (entries : List (Field × Option Value)) : Prop extends Complete entries where
  trailing : (entries.map (·.1)).Pairwise fun before after => before.optional → after.optional
  last : ∀ f ∈ (entries.map (·.1)).dropLast, f.type ≠ .remaining
  traced : ∀ f, (f, some (.bytes [])) ∈ entries → f.optional = true → f.type ≠ .remaining

theorem Readable.tail {entry : Field × Option Value} {rest : List (Field × Option Value)}
    (h : Readable (entry :: rest)) : Readable rest where
  checked f v hm := h.checked f v (List.mem_cons_of_mem _ hm)
  required f hm := h.required f (List.mem_cons_of_mem _ hm)
  gapless := (List.pairwise_cons.mp h.gapless).2
  trailing := (List.pairwise_cons.mp h.trailing).2
  last f hm := h.last f (by
    cases rest with
    | nil => exact absurd hm List.not_mem_nil
    | cons next rest => exact List.mem_cons_of_mem _ hm)
  traced f hm := h.traced f (List.mem_cons_of_mem _ hm)

theorem Readable.unset {f : Field} {rest : List (Field × Option Value)}
    (h : Readable ((f, none) :: rest)) : ∀ e ∈ rest, e.2 = none := by
  intro e hm
  have hf := h.required f List.mem_cons_self
  have he : e.1.optional = true :=
    (List.pairwise_cons.mp h.trailing).1 e.1 (List.mem_map_of_mem hm) hf
  exact (List.pairwise_cons.mp h.gapless).1 e hm hf rfl he

theorem payload_unset {entries : List (Field × Option Value)} (h : ∀ e ∈ entries, e.2 = none) :
    payload entries = [] ∧ entries.map (·.2) = List.replicate entries.length none := by
  induction entries with
  | nil => exact ⟨rfl, rfl⟩
  | cons entry rest ih =>
    obtain ⟨f, v⟩ := entry
    obtain ⟨hp, hv⟩ := ih fun e hm => h e (List.mem_cons_of_mem _ hm)
    have hn : v = none := h (f, v) List.mem_cons_self
    subst hn
    exact ⟨hp, congrArg (none :: ·) hv⟩

theorem ofPacket_of_names {d : Definition} {h : CommandHeader} (hd : h.names d.header = true)
    (payload : List UInt8) :
    ofPacket d (.ofHeader h payload) = readFields d d.fields payload [] := by
  simp [ofPacket, Packet.ofHeader, hd]

theorem readFields_of_ofPacket {d : Definition} {packet : Packet} {c : Command}
    (h : ofPacket d packet = .ok c) : readFields d d.fields packet.payload [] = .ok c := by
  unfold ofPacket at h
  split at h
  · split at h
    · exact h
    · exact absurd h nofun
  · exact absurd h nofun

theorem readFields_encode {d : Definition} {f : Field} {v : Value} {fields : List Field}
    {data : List UInt8} {read : List (Option Value)} (hcheck : f.type.check v = .ok ())
    (hrest : f.type = .remaining → data = [])
    (hne : f.optional = true → f.type.encode v ≠ []) :
    readFields d (f :: fields) (f.type.encode v ++ data) read
      = readFields d fields data (read ++ [some v]) := by
  have hskip : (f.optional && (f.type.encode v ++ data).isEmpty) = false := by
    cases ho : f.optional with
    | false => rfl
    | true => simp [hne ho]
  rw [readFields, hskip, if_neg Bool.false_ne_true, FieldType.decode_encode hcheck hrest]
  dsimp only
  rw [List.drop_left]

theorem readFields_payload {d : Definition} {entries : List (Field × Option Value)}
    (h : Readable entries) (read : List (Option Value))
    (hl : d.fields.length = read.length + entries.length) :
    readFields d (entries.map (·.1)) (payload entries) read
      = .ok ⟨d, read ++ entries.map (·.2), false⟩ := by
  induction entries generalizing read with
  | nil => simp [readFields, padTo, hl]
  | cons entry rest ih =>
    obtain ⟨f, v⟩ := entry
    cases v with
    | none =>
      have hf := h.required f List.mem_cons_self
      obtain ⟨hp, hv⟩ := payload_unset h.unset
      have hempty : payload ((f, none) :: rest) = [] := hp
      have hpad : padTo d.fields.length read = read ++ none :: rest.map (·.2) := by
        rw [padTo, hl, hv, ← List.replicate_succ]
        simp
      simp [readFields, hempty, hf, hpad]
    | some v =>
      have hcheck := h.checked f v List.mem_cons_self
      -- a field that takes everything is the last one, so that nothing is written behind it
      have hrest : f.type = .remaining → payload rest = [] := by
        intro hr
        cases rest with
        | nil => rfl
        | cons next rest => exact absurd hr (h.last f (by simp))
      have hne : f.optional = true → f.type.encode v ≠ [] := by
        intro ho
        refine FieldType.encode_ne_nil hcheck fun hr hv => ?_
        rw [hv] at h
        exact h.traced f List.mem_cons_self ho hr
      have hlen : d.fields.length = (read ++ [some v]).length + rest.length := by
        simp only [List.length_append, List.length_cons, List.length_nil] at hl ⊢
        omega
      calc readFields d (f :: rest.map (·.1)) (f.type.encode v ++ payload rest) read
          = readFields d (rest.map (·.1)) (payload rest) (read ++ [some v]) :=
            readFields_encode hcheck hrest hne
        _ = .ok ⟨d, read ++ [some v] ++ rest.map (·.2), false⟩ := ih h.tail _ hlen
        _ = .ok ⟨d, read ++ some v :: rest.map (·.2), false⟩ := by
            rw [List.append_assoc, List.singleton_append]

/-- No optional field that takes everything that is left is set to nothing. -/
def Traced (c : Command) : Prop :=
  ∀ f, (f, some (.bytes [])) ∈ c.entries → f.optional = true → f.type ≠ .remaining

theorem ofPacket_payload {d : Definition} {values : List (Option Value)}
    (hlen : values.length = d.fields.length) (h : Readable (d.fields.zip values)) :
    ofPacket d (.ofHeader d.header (payload (d.fields.zip values))) = .ok ⟨d, values, false⟩ := by
  have hfields : (d.fields.zip values).map (·.1) = d.fields :=
    List.map_fst_zip (Nat.le_of_eq hlen.symm)
  have hvalues : (d.fields.zip values).map (·.2) = values :=
    List.map_snd_zip (Nat.le_of_eq hlen)
  have hread := readFields_payload (d := d) h [] (by simp [hlen])
  rw [hfields, hvalues] at hread
  rw [ofPacket_of_names d.header.names_self]
  exact hread

theorem ofPacket_toPacket {d : Definition} {params : List (String × Value)} {c : Command}
    (hm : make d params = .ok c) (ht : d.OptionalTrail) (hl : d.RemainingLast) (hc : c.Traced) :
    ∃ payload, c.toPacket = .ok (.ofHeader d.header payload)
      ∧ ofPacket d (.ofHeader d.header payload) = .ok c := by
  obtain ⟨hd, hp, hlen, hcomplete⟩ := make_complete hm
  obtain ⟨d', values, isPattern⟩ := c
  dsimp only at hd hp hlen
  subst hd hp
  have hfields : (d'.fields.zip values).map (·.1) = d'.fields :=
    List.map_fst_zip (Nat.le_of_eq hlen.symm)
  refine ⟨payload (d'.fields.zip values), rfl, ofPacket_payload hlen ⟨hcomplete, ?_, ?_, hc⟩⟩
  · rw [hfields]
    exact ht
  · rw [hfields]
    exact hl

def leavesNoTrace (entry : Field × Option Value) : Bool :=
  entry.1.optional && entry.1.type == .remaining && entry.2 == some (.bytes [])

def tracedValue (entry : Field × Option Value) : Option Value :=
  if leavesNoTrace entry then none else entry.2

/-- What comes back from the packet of a command: what leaves no trace is not set. -/
def readBack (c : Command) : Command := { c with values := c.entries.map tracedValue }

theorem leavesNoTrace_iff {entry : Field × Option Value} : leavesNoTrace entry = true
    ↔ entry.1.optional = true ∧ entry.1.type = .remaining ∧ entry.2 = some (.bytes []) := by
  simp [leavesNoTrace, and_assoc]

theorem tracedValue_eq_some {entry : Field × Option Value} {v : Value}
    (h : tracedValue entry = some v) : entry.2 = some v ∧ leavesNoTrace entry = false := by
  unfold tracedValue at h
  split at h
  · exact absurd h nofun
  · next hn => exact ⟨h, Bool.eq_false_iff.mpr hn⟩

theorem traced_iff {c : Command} : c.Traced ↔ ∀ e ∈ c.entries, leavesNoTrace e = false := by
  constructor
  · intro h e he
    refine Bool.eq_false_iff.mpr fun hn => ?_
    obtain ⟨ho, hr, hv⟩ := leavesNoTrace_iff.mp hn
    exact h e.1 (hv ▸ he) ho hr
  · intro h f he ho hr
    exact absurd ((h _ he).symm.trans (leavesNoTrace_iff.mpr ⟨ho, hr, rfl⟩)) nofun

theorem payload_traced (entries : List (Field × Option Value)) :
    payload (entries.map fun e => (e.1, tracedValue e)) = payload entries := by
  induction entries with
  | nil => rfl
  | cons e rest ih =>
    obtain ⟨f, v⟩ := e
    rw [List.map_cons]
    cases hn : leavesNoTrace (f, v) with
    | true =>
      obtain ⟨-, hr, rfl⟩ := leavesNoTrace_iff.mp hn
      have hunset : tracedValue (f, some (.bytes [])) = none := if_pos hn
      have hnothing : f.type.encode (.bytes []) = [] := by
        rw [show f.type = .remaining from hr]
        rfl
      rw [hunset, payload, payload, hnothing, ih]
      rfl
    | false =>
      have hsame : tracedValue (f, v) = v := if_neg (hn ▸ Bool.false_ne_true)
      rw [hsame]
      cases v with
      | none => exact ih
      | some v => exact congrArg (f.type.encode v ++ ·) ih

theorem pairwise_of_dropLast {α : Type} {P : α → Prop} {xs : List α} (h : ∀ x ∈ xs.dropLast, P x) :
    xs.Pairwise fun before _ => P before := by
  induction xs with
  | nil => exact List.Pairwise.nil
  | cons x rest ih =>
    cases rest with
    | nil => exact List.pairwise_singleton _ x
    | cons y rest =>
      refine List.pairwise_cons.mpr ⟨fun _ _ => h x List.mem_cons_self, ih fun z hz => ?_⟩
      exact h z (List.mem_cons_of_mem _ hz)

theorem readable_traced {entries : List (Field × Option Value)} (hcomplete : Complete entries)
    (ht : (entries.map (·.1)).Pairwise fun before after => before.optional → after.optional)
    (hl : ∀ f ∈ (entries.map (·.1)).dropLast, f.type ≠ .remaining) :
    Readable (entries.map fun e => (e.1, tracedValue e)) := by
  have hfields : (entries.map fun e => (e.1, tracedValue e)).map (·.1) = entries.map (·.1) := by
    rw [List.map_map]
    rfl
  refine ⟨⟨fun f v hm => ?_, fun f hm => ?_, ?_⟩, hfields ▸ ht, hfields ▸ hl, fun f hm ho hr => ?_⟩
  · obtain ⟨e, he, heq⟩ := List.mem_map.mp hm
    obtain ⟨rfl, hv⟩ := Prod.mk.inj heq
    exact hcomplete.checked e.1 v ((tracedValue_eq_some hv).1 ▸ he)
  · obtain ⟨e, he, heq⟩ := List.mem_map.mp hm
    obtain ⟨rfl, hv⟩ := Prod.mk.inj heq
    cases hn : leavesNoTrace e with
    | true => exact (leavesNoTrace_iff.mp hn).1
    | false =>
      have hnone : e.2 = none := (if_neg (hn ▸ Bool.false_ne_true)).symm.trans hv
      exact hcomplete.required e.1 (hnone ▸ he)
  · have hlast : entries.Pairwise fun before _ => before.1.type ≠ .remaining :=
      List.pairwise_map.mp (pairwise_of_dropLast hl)
    refine List.pairwise_map.mpr ((hcomplete.gapless.and hlast).imp fun {before after} hpair => ?_)
    obtain ⟨hgap, hne⟩ := hpair
    intro hbefore hunset hafter
    -- only the last field can leave no trace, and something stands behind this one
    have hnone : before.2 = none := by
      cases hv : before.2 with
      | none => rfl
      | some v =>
        have hn : leavesNoTrace before ≠ true := fun hn => hne (leavesNoTrace_iff.mp hn).2.1
        exact absurd (((if_neg hn).symm.trans hunset).symm.trans hv) nofun
    have hafter' : after.2 = none := hgap hbefore hnone hafter
    show tracedValue after = none
    unfold tracedValue
    rw [hafter', ite_self]
  · obtain ⟨e, he, heq⟩ := List.mem_map.mp hm
    obtain ⟨rfl, hv⟩ := Prod.mk.inj heq
    obtain ⟨hsome, hn⟩ := tracedValue_eq_some hv
    exact absurd (hn.symm.trans (leavesNoTrace_iff.mpr ⟨ho, hr, hsome⟩)) nofun

theorem readBack_eq_iff {c : Command} (hlen : c.values.length = c.definition.fields.length) :
    c.readBack.values = c.values ↔ c.Traced := by
  have hvalues : c.entries.map (·.2) = c.values := List.map_snd_zip (Nat.le_of_eq hlen)
  rw [traced_iff]
  constructor
  · intro heq e he
    have hsame : c.entries.map tracedValue = c.entries.map (·.2) := heq.trans hvalues.symm
    have hval : tracedValue e = e.2 := List.map_inj_left.mp hsame e he
    refine Bool.eq_false_iff.mpr fun hn => ?_
    have hsome := (leavesNoTrace_iff.mp hn).2.2
    exact absurd (((if_pos hn).symm.trans hval).trans hsome) nofun
  · intro h
    refine (List.map_congr_left fun e he => ?_).trans hvalues
    exact if_neg (h e he ▸ Bool.false_ne_true)

theorem readBack_of_traced {c : Command} (hlen : c.values.length = c.definition.fields.length)
    (h : c.Traced) : c.readBack = c :=
  congrArg (Command.mk c.definition · c.isPattern) ((readBack_eq_iff hlen).mpr h)

theorem entries_readBack {c : Command} (hlen : c.values.length = c.definition.fields.length) :
    c.readBack.entries = c.entries.map fun e => (e.1, tracedValue e) := by
  have hfields : c.entries.map (·.1) = c.definition.fields :=
    List.map_fst_zip (Nat.le_of_eq hlen.symm)
  rw [← List.zip_map', hfields]
  rfl

theorem payload_readBack {c : Command} (hlen : c.values.length = c.definition.fields.length) :
    payload c.readBack.entries = payload c.entries := by
  rw [entries_readBack hlen, payload_traced]

theorem ofPacket_readBack {d : Definition} {params : List (String × Value)} {c : Command}
    (ht : d.OptionalTrail) (hl : d.RemainingLast) (hm : make d params = .ok c) :
    ofPacket d (.ofHeader d.header (payload c.entries)) = .ok c.readBack := by
  obtain ⟨rfl, hp, hlen, hcomplete⟩ := make_complete hm
  have hfields : c.entries.map (·.1) = c.definition.fields :=
    List.map_fst_zip (Nat.le_of_eq hlen.symm)
  have hreadable : Readable c.readBack.entries := by
    rw [entries_readBack hlen]
    exact readable_traced hcomplete (hfields.symm ▸ ht) (hfields.symm ▸ hl)
  have hlength : c.readBack.values.length = c.definition.fields.length := by
    simp [readBack, entries, hlen]
  have hread := ofPacket_payload hlength hreadable
  have hback : Command.mk c.definition c.readBack.values false = c.readBack :=
    congrArg (Command.mk c.definition c.readBack.values) hp.symm
  rw [hback] at hread
  rw [← payload_readBack hlen]
  exact hread

theorem readBack_beq_iff {d : Definition} {params : List (String × Value)} {c : Command}
    (hm : make d params = .ok c) : (c.readBack == c) = true ↔ c.Traced := by
  obtain ⟨rfl, -, hlen, -⟩ := make_complete hm
  refine Iff.trans ?_ (readBack_eq_iff hlen)
  show (c.definition.header.names c.definition.header && c.readBack.values == c.values) = true ↔ _
  rw [CommandHeader.names_self, Bool.true_and, beq_iff_eq]

/-- Whatever parameters a command was made of: it has a packet, under the header of its definition, and
the packet is read as a complete command. It is the same command, unless an optional field that takes
everything that is left was set to nothing, which comes back unset. -/
theorem make_reads_back (d : Definition) (params : List (String × Value)) (c : Command)
    (ht : d.OptionalTrail) (hl : d.RemainingLast) (hm : make d params = .ok c) :
    ∃ payload, c.toPacket = .ok (.ofHeader d.header payload)
      ∧ ofPacket d (.ofHeader d.header payload) = .ok c.readBack
      ∧ c.readBack.isPattern = false
      ∧ (c.Traced → c.readBack = c)
      ∧ ((c.readBack == c) = true ↔ c.Traced) := by
  obtain ⟨hd, hp, hlen, -⟩ := make_complete hm
  exact ⟨payload c.entries, toPacket_of_make hm, ofPacket_readBack ht hl hm, hp,
    readBack_of_traced (hd ▸ hlen), readBack_beq_iff hm⟩

/-- A field that takes everything that is left, set to nothing, comes back unset. -/
theorem make_reads_back_nothing_left :
    let d : Definition := ⟨"Note", .of .request 7,
      [⟨"Size", .i8, false⟩, ⟨"Level", .u16, true⟩, ⟨"Rest", .remaining, true⟩], false, none⟩
    let params := [("Rest", .bytes []), ("Size", .int (-1)), ("Level", .uint 300)]
    let c : Command := ⟨d, [some (.int (-1)), some (.uint 300), some (.bytes [])], false⟩
    make d params = .ok c ∧ d.OptionalTrail ∧ d.RemainingLast ∧ ¬c.Traced
      ∧ ∃ payload, c.toPacket = .ok (.ofHeader d.header payload)
        ∧ ofPacket d (.ofHeader d.header payload) = .ok c.readBack
        ∧ c.readBack.isPattern = false
        ∧ (c.Traced → c.readBack = c)
        ∧ ((c.readBack == c) = true ↔ c.Traced) := by
  intro d params c
  have hm : make d params = .ok c := by rfl
  have ht : d.OptionalTrail := by decide
  have hl : d.RemainingLast := by decide
  have hnot : ¬c.Traced := fun h =>
    h ⟨"Rest", .remaining, true⟩ (by simp [c, d, entries]) rfl rfl
  exact ⟨hm, ht, hl, hnot, make_reads_back d params c ht hl hm⟩

end Command

end NcpHost
