/-
  DurableValue.Proofs.Json.Transfer — JSON that comes from a source and goes to a sink.

  However a source cuts its bytes, they decode like bytes that are at hand; and a sink gets the chunks of an encoding
  one by one, as far as it takes them.

  Proved:
  - `document_failing`: if the source fails, no value comes of what it gave. The failure is passed on, or the bytes
    were no start of a document already.
  - `writeEach_takes`: a sink with room for so many bytes takes what is not longer, and the start of anything else.
  - `encodeTo_takes`: so it does with an encoding, and that is the one thing that can go wrong once there is a value
    to write.
  - `a_failing_source_is_no_corruption`: both ways, for every format of the codec.
-/
import DurableValue.Codec.Settings
import DurableValue.Codec.Transfer
import DurableValue.Proofs.Json.Gives

namespace DurableValue.Json

open Reading

namespace Reader

variable {α : Type} {item : Reading α}

theorem runs_finish : Runs (fun n => Under n) finish fun _ _ _ => True := by
  refine runs_blanks.bind fun next => ?_
  cases next with
  | none => exact runs_pure fun _ _ _ => trivial
  | some b => exact runs_failAhead _

theorem stop_of_peek {c d : Cursor} (ran : peek c = .ok (none, d)) : c.ending = .stop := by
  rcases next_cases c with ⟨b, bs, -, looked, -⟩ | ⟨stop, -⟩ | ⟨e, -, looked, -⟩
  · cases looked.symm.trans ran
  · exact stop
  · cases looked.symm.trans ran

/-- A document ends only where its source does. -/
theorem stop_of_finish {c d : Cursor} (ran : finish c = .ok ((), d)) : c.ending = .stop := by
  unfold finish at ran
  rcases bind_cases blanks _ c with ⟨e, -, whole⟩ | ⟨next, c', looked, whole⟩ <;> rw [whole] at ran
  · cases ran
  cases next with
  | none => exact (moves_overBlanks.ending c).symm.trans (stop_of_peek looked)
  | some b => cases ran

def entire (item : Reading α) : Reading α := item >>= fun v => finish >>= fun _ => pure v

theorem document_eq (item : Reading α) (c : Cursor) : document item c = (entire item c).map Prod.fst := by
  unfold document entire
  split <;> rename_i ran
  · rw [ran]
    rfl
  · rw [ran]
    rfl

theorem follows_entire (stays : Stays item) (n : Nat) (more : Bytes) (ending : Ending) :
    Follows more ending (Under n) (entire item) (entire item) fun _ _ => True :=
  stays.bind (fun v => runs_finish.bind fun _ => runs_pure (a := v) fun _ _ => id) n more ending

theorem stop_of_entire (stays : Stays item) {c d : Cursor} {v : α} (ran : entire item c = .ok (v, d)) :
    c.ending = .stop := by
  rcases bind_cases item (fun v => finish >>= fun _ => pure v) c with ⟨e, -, whole⟩ | ⟨w, c', read, whole⟩
  · cases whole.symm.trans ran
  have ran := whole.symm.trans ran
  rcases bind_cases finish (fun _ => pure w) c' with ⟨e, -, rest⟩ | ⟨_, c'', ended, -⟩
  · cases rest.symm.trans ran
  · obtain ⟨-, same, -⟩ := (stays (c.rest.length + 1) [] .stop).ok (Nat.lt_succ_self _) read
    exact same.symm.trans (stop_of_finish ended)

/-- What is made of a source that fails: its failure, or a complaint that stands however it might have gone on. -/
theorem document_failing (stays : Stays item) {c : Cursor} {e : Disk.IoError} (failing : c.ending = .fail e) :
    document item c = .error (.source e) ∨ ∃ p line column, document item c = .error (.bad p line column) ∧
      ∀ more ending, ∃ p' line' column', document item (c.extended more ending) = .error (.bad p' line' column') := by
  have start : Under (c.rest.length + 1) c := Nat.lt_succ_self _
  have follows := follows_entire stays (c.rest.length + 1)
  rw [document_eq]
  rcases ran : entire item c with (⟨p, line, column⟩ | e') | ⟨v, d⟩
  · refine Or.inr ⟨p, line, column, rfl, fun more ending => ?_⟩
    obtain ⟨p', line', column', bad⟩ := (follows more ending).bad start ⟨p, line, column, ran⟩ e failing
    exact ⟨p', line', column', by rw [document_eq, bad]; rfl⟩
  · cases ((follows [] .stop).source start ran).symm.trans failing
    exact Or.inl rfl
  · cases (stop_of_entire stays ran).symm.trans failing

end Reader

/-! ## Readers that follow themselves -/

/-- The readers of values: of any JSON, of scalars, of containers and records of these, and of what else is made of
what they read, where that may be refused. -/
inductive Shaped : {α : Type} → Reading α → Prop
  | value (levels : Nat) : Shaped (Reader.value levels)
  | integer (expected : String) (least bound : Int) : Shaped (Shape.integer expected least bound)
  | string : Shaped Shape.string
  | bool : Shaped Shape.bool
  | list {α : Type} {item : Reading α} : Shaped item → Shaped (Shape.list item)
  | map {α : Type} {item : Reading α} : Shaped item → Shaped (Shape.map item)
  | option {α : Type} {item : Reading α} : Shaped item → Shaped (Shape.option item)
  | record {σ ρ : Type} {r : Record σ ρ} : (∀ f ∈ r.fields, ∀ s, Shaped (f.read s)) → Shaped r.read
  | made {α β : Type} {item : Reading α} (f : α → Except Problem β) : Shaped item →
    Shaped (item >>= fun a => match f a with
      | .ok b => pure b
      | .error p => failHere p)

theorem eats_of_shaped {α : Type} {r : Reading α} (shaped : Shaped r) : Eats r := by
  induction shaped with
  | value levels => exact Reader.eats_value levels
  | integer expected least bound => exact Shape.eats_integer expected least bound
  | string => exact Shape.eats_string
  | bool => exact Shape.eats_bool
  | list _ ih => exact Shape.eats_list ih
  | map _ ih => exact Shape.eats_map ih
  | option _ ih => exact Shape.eats_option ih
  | record _ ih => exact Record.eats_read fun f mem s => (ih f mem s).stays
  | made f _ ih =>
    refine ih.bind fun a => ?_
    split
    · exact stays_pure _
    · exact runs_failHere _

/-- The settings, field by field, are read by a reader of this kind. -/
theorem shaped_settings : Shaped Settings.format.read := by
  refine .record fun f mem s => ?_
  rcases List.mem_cons.mp mem with rfl | mem
  · exact .made (fun theme => .ok { s with theme := some theme }) .string
  · cases List.mem_singleton.mp mem
    exact .made (fun size => .ok { s with fontSize := some size }) (.integer _ _ _)

end DurableValue.Json

namespace DurableValue.Codec

/-- So are the values of every stock format. -/
theorem shaped_formats : Json.Shaped json.read ∧ Json.Shaped u32s.read ∧ Json.Shaped u64.read ∧ Json.Shaped i64.read ∧
    Json.Shaped string.read ∧ Json.Shaped bool.read ∧ Json.Shaped map.read ∧ Json.Shaped option.read :=
  ⟨.value _, .list (.integer _ _ _), .integer _ _ _, .integer _ _ _, .string, .bool, .map (.integer _ _ _),
    .option (.integer _ _ _)⟩

/-! ## Sources -/

namespace Source

/-- The bytes of a source before it ends or fails, and which of the two it does. -/
def delivered : Source → Bytes × Json.Ending
  | ended => ([], .stop)
  | chunk b bs rest => (b :: bs ++ rest.delivered.1, rest.delivered.2)
  | failing e rest => if e.kind = .interrupted then rest.delivered else ([], .fail e)

theorem drained_chunk (b : UInt8) (bs : Bytes) (s : Source) :
    (chunk b bs s).drained = (b :: (led bs s).drained.1, (led bs s).drained.2) := by
  rw [drained]
  rfl

theorem drained_led (bs : Bytes) {s : Source} {found : Bytes × Json.Ending} (rest : s.drained = found) :
    (led bs s).drained = (bs ++ found.1, found.2) := by
  induction bs with
  | nil => exact rest
  | cons b bs ih => rw [led, drained_chunk, ih, List.cons_append]

/-- Reading byte by byte gives all of a source, whatever its chunks. -/
theorem drained_eq_delivered (s : Source) : s.drained = s.delivered := by
  induction s with
  | ended =>
    rw [drained]
    rfl
  | chunk b bs rest ih => exact drained_led (b :: bs) ih
  | failing e rest ih =>
    rw [drained]
    change (if e.kind = .interrupted then rest.drained else ([], .fail e)) = _
    rw [ih, delivered]

end Source

/-! ## Sinks -/

namespace Sink

variable {σ : Type} (k : Sink σ)

/-- Whether an outcome is that of a sink that takes as many bytes as it has room for. -/
inductive Takes (s : σ) (bs : Bytes) : Outcome σ → Prop
  | all {s' : σ} : bs.length + k.room s' = k.room s → Takes s bs ⟨bs, none, s'⟩
  | part {taken : Bytes} {e : Disk.IoError} {s' : σ} : k.room s < bs.length → taken <+: bs →
    Takes s bs ⟨taken, some e, s'⟩

variable {k}

theorem Takes.after {s s' : σ} {bs cs : Bytes} {o : Outcome σ} (rest : k.Takes s' cs o)
    (taken : bs.length + k.room s' = k.room s) : k.Takes s (bs ++ cs) { o with taken := bs ++ o.taken } := by
  cases rest with
  | all left =>
    refine .all ?_
    rw [List.length_append, Nat.add_assoc, left, taken]
  | part short begins =>
    refine .part ?_ ((List.prefix_append_right_inj bs).mpr begins)
    rw [List.length_append]
    omega

theorem writeAll_takes (bs : Bytes) (s : σ) : k.Takes s bs (k.writeAll bs s) := by
  fun_induction writeAll k bs s with
  | case1 => exact .all (Nat.zero_add _)
  | case2 bs s some e s' wrote =>
    refine .part (Nat.lt_of_not_le fun fits => ?_) List.nil_prefix
    obtain ⟨n, s'', taken⟩ := k.fits some fits
    cases wrote.symm.trans taken
  | case3 bs s some s' wrote =>
    refine .part (Nat.lt_of_not_le fun fits => ?_) List.nil_prefix
    obtain ⟨n, s'', taken⟩ := k.fits some fits
    cases wrote.symm.trans taken
  | case4 bs s some n s' wrote rest ih =>
    obtain ⟨le, left⟩ := k.taken_le wrote
    have taken : (bs.take (n + 1)).length + k.room s' = k.room s := by rwa [List.length_take, Nat.min_eq_left le]
    have whole := ih.after taken
    rwa [List.take_append_drop] at whole

/-- What a sink takes does not depend on the chunks, as long as it is all. -/
theorem writeEach_takes (cs : List Bytes) (s : σ) : k.Takes s cs.flatten (k.writeEach cs s) := by
  induction cs generalizing s with
  | nil => exact .all (Nat.zero_add _)
  | cons c cs ih =>
    have first := writeAll_takes (k := k) c s
    rw [writeEach, List.flatten_cons]
    cases outcome : k.writeAll c s with
    | mk taken failure s' =>
      rw [outcome] at first
      cases first with
      | all left => exact (ih s').after left
      | part short begins =>
        refine .part ?_ (begins.trans (List.prefix_append c _))
        rw [List.length_append]
        exact Nat.lt_of_lt_of_le short (Nat.le_add_right _ _)

theorem strict_writeAll (bs : Bytes) (room : Nat) :
    strict.writeAll bs room =
      if bs.length ≤ room then ⟨bs, none, room - bs.length⟩ else ⟨[], some Format.sinkFull, room⟩ := by
  cases bs with
  | nil =>
    rw [writeAll]
    rfl
  | cons b bs =>
    rw [writeAll, dif_neg (List.cons_ne_nil b bs)]
    by_cases fits : (b :: bs).length ≤ room
    · have wrote : strict.write (b :: bs) room = (.ok (bs.length + 1), room - (b :: bs).length) := if_pos fits
      rw [wrote, if_pos fits]
      simp only [List.drop_succ_cons, List.take_succ_cons, List.drop_length, List.take_length]
      rw [writeAll, dif_pos rfl]
      simp
    · have refused : strict.write (b :: bs) room = (.error Format.sinkFull, room) := if_neg fits
      rw [refused, if_neg fits]

theorem strict_writeEach (cs : List Bytes) (room : Nat) :
    (strict.writeEach cs room).taken = (Format.accepted room cs).1 ∧
      (strict.writeEach cs room).failure = if (Format.accepted room cs).2 then none else some Format.sinkFull := by
  induction cs generalizing room with
  | nil => exact ⟨rfl, rfl⟩
  | cons c cs ih =>
    rw [writeEach, strict_writeAll, Format.accepted]
    by_cases fits : c.length ≤ room
    · rw [if_pos fits, if_pos fits]
      exact ⟨congrArg (c ++ ·) (ih _).1, (ih _).2⟩
    · rw [if_neg fits, if_neg fits]
      exact ⟨rfl, rfl⟩

end Sink

variable {α : Type} {f : Format α}

/-- What a sink with room for so many bytes reports of an encoding, and what it has taken. -/
theorem Sink.Takes.reports {σ : Type} {k : Sink σ} {s : σ} {bs : Bytes} {o : Sink.Outcome σ} (takes : k.Takes s bs o) :
    (o.result = .ok () ↔ bs.length ≤ k.room s) ∧
      (o.result = .ok () → o.taken = bs ∧ bs.length + k.room o.state = k.room s) ∧
      (k.room s < bs.length → ∃ e, o.result = .error (.io e)) ∧ o.taken <+: bs := by
  cases takes with
  | all left =>
    have fits : bs.length ≤ k.room s := Nat.le.intro left
    exact ⟨⟨fun _ => fits, fun _ => rfl⟩, fun _ => ⟨rfl, left⟩, fun short => absurd fits (Nat.not_le_of_lt short),
      List.prefix_refl bs⟩
  | part short begins =>
    exact ⟨⟨nofun, fun fits => absurd fits (Nat.not_le_of_lt short)⟩, nofun, fun _ => ⟨_, rfl⟩, begins⟩

theorem encodeTo_takes {σ : Type} (k : Sink σ) (s : σ) (layout : Json.Layout) (v : α) :
    k.Takes s (f.chunks layout v).flatten (f.encodeTo layout v k s) := Sink.writeEach_takes _ s

/-- A limit to what is written is a sink that takes a chunk as a whole or not at all. -/
theorem encodeInto_some (layout : Json.Layout) (room : Nat) (v : α) :
    f.encodeInto layout (some room) v =
      (f.encodeTo layout v Sink.strict room).result.map fun _ => (f.encodeTo layout v Sink.strict room).taken := by
  obtain ⟨taken, failure⟩ := Sink.strict_writeEach (f.chunks layout v) room
  rw [Format.encodeInto, Format.encodeTo, Sink.Outcome.result, failure, taken]
  rcases Format.accepted room (f.chunks layout v) with ⟨bs, _ | _⟩ <;> rfl

/-- An encoding that does not fit is refused as the sink refuses it. -/
theorem encodeInto_room (layout : Json.Layout) (room : Nat) (v : α) :
    f.encodeInto layout (some room) v =
      if (f.chunks layout v).flatten.length ≤ room then .ok (f.chunks layout v).flatten
      else .error (.io Format.sinkFull) := by
  obtain ⟨written, whole, -, -⟩ := (encodeTo_takes (f := f) Sink.strict room layout v).reports
  rw [encodeInto_some]
  split <;> rename_i fits
  · have returned := written.mpr fits
    rw [returned, (whole returned).1]
    rfl
  · have failure := (Sink.strict_writeEach (f.chunks layout v) room).2
    rw [Sink.Outcome.result] at written ⊢
    rw [show (f.encodeTo layout v Sink.strict room).failure = _ from failure] at written ⊢
    cases accepted : (Format.accepted room (f.chunks layout v)).2 <;> rw [accepted] at written
    · rfl
    · exact absurd (written.mp rfl) fits

theorem decodeFrom_of_delivered {source : Source} {b : Bytes} {ending : Json.Ending}
    (given : source.delivered = (b, ending)) : f.decodeFrom source = f.decodeStream b ending := by
  rw [Format.decodeFrom, Source.drained_eq_delivered, given]

theorem decodeFrom_ended (stays : Json.Reading.Stays f.read) {source : Source} {b : Bytes}
    (given : source.delivered = (b, .stop)) :
    f.decodeFrom source = f.decode b ∧
      ((∃ v, f.decodeFrom source = .ok v) ∨ ∃ e, f.decodeFrom source = .error e ∧ e.isCorruption = true) := by
  rw [decodeFrom_of_delivered given]
  refine ⟨rfl, ?_⟩
  unfold Format.decodeStream
  rcases Json.Reader.gives_document (stays.sane Json.Reading.under_some) (c := .stream b .stop) rfl with
    ⟨v, read, -⟩ | ⟨p, line, column, bad⟩
  · exact Or.inl ⟨v, by rw [read]; rfl⟩
  · exact Or.inr ⟨_, by rw [bad]; rfl, rfl⟩

theorem decodeFrom_failing (stays : Json.Reading.Stays f.read) {source : Source} {b : Bytes} {e : Disk.IoError}
    (given : source.delivered = (b, .fail e)) :
    f.decodeFrom source = .error (.io e) ∨
      ∃ e', f.decodeFrom source = .error e' ∧ e'.isCorruption = true ∧
        ∀ more, ∃ e'', f.decode (b ++ more) = .error e'' ∧ e''.isCorruption = true := by
  rw [decodeFrom_of_delivered given]
  unfold Format.decodeStream
  rcases Json.Reader.document_failing stays (c := .stream b (.fail e)) rfl with failed | ⟨p, line, column, bad, onward⟩
  · exact Or.inl (by rw [failed]; rfl)
  · refine Or.inr ⟨_, by rw [bad]; rfl, rfl, fun more => ?_⟩
    obtain ⟨p', line', column', bad'⟩ := onward more .stop
    exact ⟨_, congrArg (Except.mapError Format.errorOf) bad', rfl⟩

/-- **A source that fails is not mistaken for a document that is wrong.** However a source hands out its bytes, they
decode like bytes at hand; where it fails the failure is passed on, unless the bytes before it are corrupt whatever
follows them. To encode into a sink succeeds if the sink has room for the encoding, which it has taken then; otherwise
the sink's failure is passed on, and what was taken is the start of the encoding. -/
theorem a_failing_source_is_no_corruption (shaped : Json.Shaped f.read) (layout : Json.Layout) (default : α) :
    (∀ source b, Source.delivered source = (b, .stop) →
      f.decodeFrom source = (f.codec layout default).decode b ∧
        ((∃ v, f.decodeFrom source = .ok v) ∨ ∃ e, f.decodeFrom source = .error e ∧ e.isCorruption = true)) ∧
    (∀ source b e, Source.delivered source = (b, .fail e) →
      f.decodeFrom source = .error (.io e) ∨
        ∃ e', f.decodeFrom source = .error e' ∧ e'.isCorruption = true ∧
          ∀ more, ∃ e'', (f.codec layout default).decode (b ++ more) = .error e'' ∧ e''.isCorruption = true) ∧
    ∀ v, ∃ bs, (f.codec layout default).encode v = .ok bs ∧
      (∀ {σ : Type} (k : Sink σ) (s : σ),
        let o := f.encodeTo layout v k s
        (o.result = .ok () ↔ bs.length ≤ k.room s) ∧
        (o.result = .ok () → o.taken = bs ∧ bs.length + k.room o.state = k.room s) ∧
        (k.room s < bs.length → ∃ e, o.result = .error (.io e)) ∧
        o.taken <+: bs) ∧
      ∀ room, f.encodeInto layout (some room) v =
        if bs.length ≤ room then .ok bs else .error (.io Format.sinkFull) := by
  have stays := (Json.eats_of_shaped shaped).stays
  refine ⟨fun source b given => decodeFrom_ended stays given, fun source b e given => decodeFrom_failing stays given,
    fun v => ⟨_, rfl, fun k s => ?_, fun room => encodeInto_room layout room v⟩⟩
  exact (encodeTo_takes k s layout v).reports

theorem a_lost_bracket_is_no_corruption :
    u32s.decodeFrom (.chunk 0x5B [0x31] (.chunk 0x5D [] .ended)) = .ok [1] ∧
      u32s.decodeFrom (.chunk 0x5B [0x31] (.failing (.other "lost") .ended)) = .error (.io (.other "lost")) ∧
      (∃ e, (u32s.encodeTo .compact [] Sink.strict 1).result = .error (.io e)) ∧
      (u32s.encodeTo .compact [] Sink.strict 2).taken = [0x5B, 0x5D] ∧
      Settings.format.encodeInto .compact (some 10) ⟨"dark", 12⟩ = .error (.io Format.sinkFull) := by
  have whole : (u32s.codec .compact []).decode [0x5B, 0x31, 0x5D] = .ok [1] := rfl
  obtain ⟨ended, failed, encoded⟩ := a_failing_source_is_no_corruption (f := u32s) shaped_formats.2.1 .compact []
  obtain ⟨bs, written, taken, -⟩ := encoded []
  obtain rfl : [0x5B, 0x5D] = bs := Except.ok.inj written
  obtain ⟨-, -, settings⟩ :=
    a_failing_source_is_no_corruption (f := Settings.format) Json.shaped_settings .compact ⟨"", 0⟩
  obtain ⟨cs, put, -, limited⟩ := settings ⟨"dark", 12⟩
  have long : ¬ cs.length ≤ 10 := Except.ok.inj put ▸ by decide +kernel
  refine ⟨(ended _ _ rfl).1.trans whole, ?_, (taken Sink.strict 1).2.2.1 (by decide),
    ((taken Sink.strict 2).2.1 ((taken Sink.strict 2).1.mpr (by decide))).1, (limited 10).trans (if_neg long)⟩
  rcases failed (.chunk 0x5B [0x31] (.failing (.other "lost") .ended)) [0x5B, 0x31] _ rfl with
    lost | ⟨e, -, -, corrupt⟩
  · exact lost
  · obtain ⟨e', decoded, -⟩ := corrupt [0x5D]
    cases whole.symm.trans decoded

end DurableValue.Codec
