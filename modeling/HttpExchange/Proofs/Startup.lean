/-
# Which accepted configurations start

A configuration that keeps all rules is never refused by the engine, whatever the
command line puts over it. It may still not start: the rules ask of a thread name
that it is not blank, and the system asks that it has no zero character. An engine
whose thread name has one faults, at the place of the first
(`Engine.threadNameFault?_of_zero`); every other one starts
(`Engine.accepted_starts_iff`).

A zero character is a zero byte: no other character has one in its encoding
(`Text.Utf8.zero_mem_encode_iff`).

Key theorems: `Text.Utf8.zero_mem_encode_iff`, `Config.valid_of_parse`,
`Config.valid_of_load`, `Cli.Options.valid_override`,
`Engine.threadNameFault?_of_zero`, `Engine.accepted_starts_iff`.
-/
import Mathlib.Data.List.Basic
import HttpExchange.Cli.Report

namespace HttpExchange

/-! ### Zero bytes -/

namespace Text.Utf8

theorem zero_mem_encodeChar_iff (c : Char) :
    (0 : UInt8) ∈ String.utf8EncodeChar c ↔ c = '\x00' := by
  have hbyte {n : Nat} (hpos : 0 < n) (hlt : n < 256) : (0 : UInt8) ≠ UInt8.ofNat n := by
    intro h
    have hn : 0 = n % 256 := congrArg UInt8.toNat h
    omega
  constructor
  · intro h
    by_contra hc
    have hpos : 0 < c.val.toNat := by
      apply Nat.pos_of_ne_zero
      intro h0
      exact hc (Char.toNat_inj.mp h0)
    unfold String.utf8EncodeChar at h
    dsimp only at h
    -- a single byte is the character itself, and a byte of several is no smaller
    -- than what marks its place
    split at h
    · rw [List.mem_singleton] at h
      exact hbyte hpos (by omega) h
    · split at h
      · simp only [List.mem_cons, List.not_mem_nil, or_false] at h
        rcases h with h | h <;> exact hbyte (by omega) (by omega) h
      · split at h
        · simp only [List.mem_cons, List.not_mem_nil, or_false] at h
          rcases h with h | h | h <;> exact hbyte (by omega) (by omega) h
        · simp only [List.mem_cons, List.not_mem_nil, or_false] at h
          rcases h with h | h | h | h <;> exact hbyte (by omega) (by omega) h
  · rintro rfl
    decide

theorem zero_mem_encodeAll_iff (cs : List Char) :
    (0 : UInt8) ∈ cs.flatMap String.utf8EncodeChar ↔ '\x00' ∈ cs := by
  simp only [List.mem_flatMap, zero_mem_encodeChar_iff, exists_eq_right]

/-- A text has a zero byte exactly if it has a zero character. -/
theorem zero_mem_encode_iff (s : String) : (0 : UInt8) ∈ encode s ↔ '\x00' ∈ s.toList :=
  zero_mem_encodeAll_iff s.toList

/-- The first zero byte stands behind the bytes of the characters before the first
zero character. -/
theorem idxOf_zero_encode {s : String} {before after : List Char}
    (hs : s.toList = before ++ '\x00' :: after) (hb : '\x00' ∉ before) :
    (encode s).idxOf 0 = (before.flatMap String.utf8EncodeChar).length := by
  unfold encode
  rw [hs, List.flatMap_append, List.idxOf_append_of_notMem
    ((zero_mem_encodeAll_iff before).not.mpr hb)]
  rfl

end Text.Utf8

/-! ### What is accepted -/

namespace Config

variable {c : Config}

theorem valid_of_parse {s : String} (h : parse s = .ok c) : c.Valid := by
  unfold parse at h
  split at h
  · cases h
  · split at h
    · rename_i hissues
      cases h
      exact hissues
    · cases h

theorem valid_of_load {contents : Except FileError Bytes} (h : load contents = .ok c) :
    c.Valid := by
  unfold load at h
  split at h
  · cases h
  · split at h
    · cases h
    · exact valid_of_parse h

end Config

namespace Cli.Options

variable {c : Config}

/-- The options touch nothing that a rule speaks of. -/
theorem issues_override (o : Options) (c : Config) : (o.override c).issues = c.issues := rfl

theorem valid_override (hc : c.Valid) (o : Options) : (o.override c).Valid :=
  (issues_override o c).trans hc

/-- Whatever configuration a run begins with keeps all rules. -/
theorem valid_of_load {o : Options} {contents : String → Except FileError Bytes}
    (h : o.load contents = .ok c) : c.Valid := by
  unfold load at h
  split at h
  · rename_i path _
    cases hl : Config.load (contents path) with
    | error e =>
      rw [hl] at h
      cases h
    | ok d =>
      rw [hl] at h
      cases h
      exact valid_override (Config.valid_of_load hl) o
  · cases h
    exact valid_override (by decide) o

end Cli.Options

/-! ### What starts -/

namespace Engine

theorem threadNameFault?_of_no_zero {name : String} (h : '\x00' ∉ name.toList) :
    threadNameFault? name = none := by
  unfold threadNameFault?
  exact if_neg ((Text.Utf8.zero_mem_encode_iff name).not.mpr h)

/-- The fault tells the place of the first zero byte. -/
theorem threadNameFault?_of_zero {name : String} {before after : List Char}
    (hs : name.toList = before ++ '\x00' :: after) (hb : '\x00' ∉ before) :
    threadNameFault? name =
      some (.threadName (before.flatMap String.utf8EncodeChar).length (Text.Utf8.encode name)) := by
  have hzero : (0 : UInt8) ∈ Text.Utf8.encode name := by
    rw [Text.Utf8.zero_mem_encode_iff, hs]
    simp
  unfold threadNameFault?
  rw [← Text.Utf8.idxOf_zero_encode hs hb]
  exact if_pos hzero

section Start

variable {c : Config} {answers : Bool} {draws : Draws}

theorem start_of_valid (hc : c.Valid) :
    start c answers draws =
      match threadNameFault? c.dispatcher.threadName with
      | some f => .error (.fault f)
      | none =>
        .ok {
          host := {
            client := Client.ofConfig c draws
            network := c.network.preferred
            pipeline := { answers := answers } }
          phase := .building } := by
  unfold start
  exact if_neg (not_not.mpr hc)

theorem faults_of_zero (hc : c.Valid) {before after : List Char}
    (hs : c.dispatcher.threadName.toList = before ++ '\x00' :: after) (hb : '\x00' ∉ before) :
    start c answers draws =
      .error (.fault (.threadName (before.flatMap String.utf8EncodeChar).length
        (Text.Utf8.encode c.dispatcher.threadName))) := by
  rw [start_of_valid hc, threadNameFault?_of_zero hs hb]

theorem starts_of_no_zero (hc : c.Valid) (h : '\x00' ∉ c.dispatcher.threadName.toList)
    (answers : Bool) (draws : Draws) : ∃ e, start c answers draws = .ok e := by
  rw [start_of_valid hc, threadNameFault?_of_no_zero h]
  exact ⟨_, rfl⟩

theorem start_ok_iff (hc : c.Valid) :
    (∃ e, start c answers draws = .ok e) ↔ '\x00' ∉ c.dispatcher.threadName.toList := by
  constructor
  · rintro ⟨e, he⟩ hzero
    obtain ⟨before, after, hs, hb⟩ := List.eq_append_cons_of_mem hzero
    rw [faults_of_zero hc hs hb] at he
    cases he
  · intro h
    exact starts_of_no_zero hc h answers draws

theorem start_not_refused (hc : c.Valid) (e : CallError) :
    start c answers draws ≠ .error (.refused e) := by
  intro h
  rw [start_of_valid hc] at h
  split at h <;> cases h

end Start

end Engine

namespace Cli

theorem Exchange.exit_report_le (x : Exchange) : x.report.exit ≤ 1 := by
  unfold Exchange.report
  split
  · exact Nat.zero_le 1
  · exact Nat.le_refl 1
  · exact Nat.le_refl 1

/-- A run ends in a fault exactly if the engine does not start for one. -/
theorem Options.run_faults_iff (o : Options) {c : Config} (hc : c.Valid) (draws : Draws) :
    o.run c draws = { exit := 101 } ↔ '\x00' ∈ c.dispatcher.threadName.toList := by
  by_cases hzero : '\x00' ∈ c.dispatcher.threadName.toList
  · obtain ⟨before, after, hs, hb⟩ := List.eq_append_cons_of_mem hzero
    unfold Options.run
    rw [Engine.faults_of_zero hc hs hb]
    exact iff_of_true rfl hzero
  · obtain ⟨e, he⟩ := Engine.starts_of_no_zero hc hzero true draws
    unfold Options.run
    rw [he]
    refine iff_of_false (fun h => ?_) hzero
    have hle := Exchange.exit_report_le
      ((Exchange.begin e.build o).run (movesFor (Text.Utf8.encode o.body).length))
    rw [congrArg Report.exit h] at hle
    exact absurd hle (by decide)

end Cli

/-- An engine starts under every configuration that keeps the rules, with the
options of the command line over it, unless the thread name has a zero character;
then it faults. It never refuses such a configuration. The rules are kept by every
configuration read from a text or a file, and by every one a run of the program
begins with, and so a run ends in a fault before anything is printed exactly if the
thread name of its configuration has a zero character. -/
theorem Engine.accepted_starts_iff (c : Config) (o : Cli.Options) (answers : Bool)
    (draws : Draws) :
    let name := c.dispatcher.threadName
    let started := Engine.start (o.override c) answers draws
    ((∃ s, Config.parse s = .ok c) ∨ (∃ contents, Config.load contents = .ok c) ∨
      (∃ p contents, Cli.Options.load p contents = .ok c) → c.Valid) ∧
    (c.Valid →
      (∀ e, started ≠ .error (.refused e)) ∧
      ((∃ e, started = .ok e) ↔ '\x00' ∉ name.toList) ∧
      (∀ before after, name.toList = before ++ '\x00' :: after → '\x00' ∉ before →
        started = .error (.fault (.threadName (before.flatMap String.utf8EncodeChar).length
          (Text.Utf8.encode name)))) ∧
      (o.run (o.override c) draws = { exit := 101 } ↔ '\x00' ∈ name.toList)) := by
  intro name started
  constructor
  · rintro (⟨s, hs⟩ | ⟨contents, hl⟩ | ⟨p, contents, hl⟩)
    · exact Config.valid_of_parse hs
    · exact Config.valid_of_load hl
    · exact Cli.Options.valid_of_load hl
  · intro hc
    have hover : (o.override c).Valid := Cli.Options.valid_override hc o
    refine ⟨fun e => start_not_refused hover e, start_ok_iff hover, fun before after hs hb => ?_,
      o.run_faults_iff hover draws⟩
    exact faults_of_zero hover hs hb

/-- A text that is read and accepted, with a zero character between two words of the
thread name: with options over it too the engine faults, at the byte behind the
first three. With a blank in that place it starts. -/
theorem Engine.accepted_starts_iff_zero :
    let text := "[dispatcher]\nthread_name = \"net\\u0000work\""
    let c : Config := { dispatcher := ⟨"net\x00work"⟩ }
    let plain : Config := { dispatcher := ⟨"net work"⟩ }
    let o : Cli.Options := { explicitFlowControl := true, network := some .wlan }
    Config.parse text = .ok c ∧ c.Valid ∧ plain.Valid ∧
      Engine.start (o.override c) true {} = .error (.fault (.threadName 3
        [110, 101, 116, 0, 119, 111, 114, 107])) ∧
      o.run (o.override c) {} = { exit := 101 } ∧
      (∃ e, Engine.start (o.override plain) true {} = .ok e) := by
  have hread : (Config.parse "[dispatcher]\nthread_name = \"net\\u0000work\"").toOption =
      some { dispatcher := ⟨"net\x00work"⟩ } := by decide +kernel
  intro text c plain o
  have hparse : Config.parse text = .ok c := by
    change (Config.parse text).toOption = some c at hread
    cases h : Config.parse text with
    | error _ =>
      rw [h] at hread
      cases hread
    | ok d =>
      rw [h] at hread
      rw [Option.some.inj hread]
  have hplain : plain.Valid := by decide
  obtain ⟨haccepted, hc⟩ := accepted_starts_iff c o true {}
  have hvalid : c.Valid := haccepted (.inl ⟨text, hparse⟩)
  obtain ⟨-, -, hfaults, hrun⟩ := hc hvalid
  obtain ⟨-, hstarts, -⟩ := (accepted_starts_iff plain o true {}).2 hplain
  have hfault := hfaults ['n', 'e', 't'] ['w', 'o', 'r', 'k'] (by decide) (by decide)
  have hbytes : Text.Utf8.encode c.dispatcher.threadName =
      [110, 101, 116, 0, 119, 111, 114, 107] := by decide
  rw [hbytes] at hfault
  exact ⟨hparse, hvalid, hplain, hfault, hrun.mpr (by decide), hstarts.mpr (by decide)⟩

end HttpExchange
