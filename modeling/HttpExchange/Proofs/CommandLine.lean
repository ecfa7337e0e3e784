/-
# The command line, however its two sides interleave

The main task of the program makes its first calls one by one, and then takes
events and answers those that ask for it with a grant; the dispatcher builds its
client and takes one turn after the other. Either may go on at any moment
(`Cli.Race`), also between an event and its grant. What is printed does not depend
on it: the queue is first in, first out, so that the response is complete in the
queue before the first event is taken, and from then on there is always one grant,
or one event that asks for a grant, on its way (`Response.Owes`).

Each move of either side takes one off the number of moves that are left
(`Cli.Race.Holds`), so every interleaving ends, and it ends with everything printed.
The program's own order is one of them (`Cli.Race.holds_run`).

Key definitions: `Cli.Race`, `Cli.Race.main`, `Cli.Race.dispatch`,
`Cli.Race.Reaches`, `Cli.Race.Holds`.
Key theorems: `Cli.Race.holds_main`, `Cli.Race.holds_dispatch`, `Cli.Race.holds_run`,
`Cli.Race.outcome_independent_of_timing`.
-/
import HttpExchange.Cli.Report
import HttpExchange.Proofs.Serving

namespace HttpExchange
namespace Cli

open Registry (Bucket)
open Response (credits)

/-! ### The two sides -/

/-- Where the main task is: before one of its first calls, or in the loop that
takes events and answers those that ask for it with a grant. -/
inductive Point
  | init
  | start
  | headers
  | data
  | reading
  | granting
  deriving DecidableEq, Repr

/-- An exchange and where the main task is in it. -/
structure Race where
  exchange : Exchange
  point : Point := .init

namespace Race

/-- The engine has been started, and nothing has been called. -/
def begin (engine : Engine) (o : Options) : Race where
  exchange := { engine := engine, handle := ⟨0⟩, credit := o.credit }

/-- The next move of the main task: a call, or an event that is taken and printed.
There is none if no event is there, or the exchange has ended. -/
def main (o : Options) (r : Race) : Option Race :=
  let x := r.exchange
  match r.point with
  | .init =>
    match x.engine.host.call .init with
    | (w, .handle h) => some ⟨{ x with engine := { x.engine with host := w }, handle := h }, .start⟩
    | (w, _) =>
      some ⟨{ x with engine := { x.engine with host := w }, ending := some .timedOut }, .reading⟩
  | .start => some ⟨x.call (.start x.handle .silent), .headers⟩
  | .headers =>
    some ⟨x.call (.post (.operate (.sendHeaders x.handle (Exchange.request o) false))), .data⟩
  | .data =>
    some ⟨x.call (.post (.operate (.sendData x.handle (Text.Utf8.encode o.body) true))), .reading⟩
  | .reading =>
    match x.ending, x.inbox with
    | none, e :: inbox =>
      let y := { x with inbox := inbox, printed := e.render :: x.printed }
      if e.isFinal then some ⟨{ y with ending := some .finished }, .reading⟩
      else some ⟨y, if x.explicit && e.wantsCredit then .granting else .reading⟩
    | _, _ => none
  | .granting => some ⟨x.call (.resume x.handle x.credit), .reading⟩

/-- The next move of the dispatcher: it builds its client, or takes a turn. There is
none if its queue is empty. -/
def dispatch (r : Race) : Option Race :=
  if r.exchange.engine.phase = .building then
    some { r with exchange := { r.exchange with engine := r.exchange.engine.build } }
  else r.exchange.deliver.map fun x => { r with exchange := x }

/-- Some number of moves, of either side in any order. -/
inductive Reaches (o : Options) : Nat → Race → Race → Prop
  | refl (r : Race) : Reaches o 0 r r
  | main {n : Nat} {r s t : Race} : r.main o = some s → Reaches o n s t → Reaches o (n + 1) r t
  | dispatch {n : Nat} {r s t : Race} : r.dispatch = some s → Reaches o n s t →
      Reaches o (n + 1) r t

/-- The main task waits for an event. -/
def Waits (r : Race) : Prop :=
  r.point = .reading ∧ r.exchange.ending = none ∧ r.exchange.inbox = []

/-- The work that the dispatcher has before it. -/
def queue (r : Race) : List Task :=
  r.exchange.engine.host.intake.waiting ++ r.exchange.engine.host.intake.pending 0

end Race

/-! ### The whole race -/

/-- The tasks that the main task has yet to post. -/
def Point.todo (o : Options) : Point → List Task
  | init | start => tasks o
  | headers => (tasks o).drop 1
  | data => (tasks o).drop 2
  | reading | granting => []

/-- The moves for the first calls that are still to be made, or for a grant: it is
posted, and it is taken off the queue. -/
def Point.moves : Point → Nat
  | init => 4
  | start => 3
  | headers => 2
  | data => 1
  | reading => 0
  | granting => 2

/-- The grants that the main task is about to post. -/
def Point.grants : Point → Nat
  | init | start | headers | data | reading => 0
  | granting => 1

/-- What holds of the host and the handle where the main task is. -/
structure Point.Fits (point : Point) (config : Config) (w : Host) (handle : Handle) : Prop where
  number : point = .init → w.nextHandle = 1
  live : point = .init ∨ point = .start → w.live = {}
  handle : point ≠ .init → handle = stream
  explicit : point = .granting → config.flowControl.explicit = true

/-- Once the stream is started the host does not matter. -/
theorem Point.Fits.past {point : Point} {config : Config} {v w : Host} {handle : Handle}
    (hp : point ≠ .init ∧ point ≠ .start) (hf : point.Fits config v handle) :
    point.Fits config w handle :=
  ⟨fun h => absurd h hp.1, fun h => h.elim (absurd · hp.1) (absurd · hp.2), hf.handle, hf.explicit⟩

theorem Point.fits_stream {point : Point} {config : Config} {w : Host}
    (hp : point ≠ .init ∧ point ≠ .start)
    (hx : point = .granting → config.flowControl.explicit = true) :
    point.Fits config w stream :=
  ⟨fun h => absurd h hp.1, fun h => h.elim (absurd · hp.1) (absurd · hp.2), fun _ => rfl, hx⟩

/-- The moves that events stand for: each is taken, and it may ask for a grant. -/
def cost (explicit : Bool) (es : List Event) : Nat := es.length + 2 * credits explicit es

/-- Building the client is one move. -/
def idle (built : Bool) : Nat := if built then 0 else 1

theorem cost_append (explicit : Bool) (xs ys : List Event) :
    cost explicit (xs ++ ys) = cost explicit xs + cost explicit ys := by
  unfold cost
  rw [List.length_append, Response.credits_append]
  omega

namespace Race

variable (o : Options) (config : Config) (draws : Draws)

/-- A race in which what was read, what is to be read and what is to be told make up
the echo, with whether the client is built and the number of moves that are left. -/
inductive Holds : Race → Bool → Nat → Prop
  | going {w : Host} {q : List Task} {built : Bool} {point : Point} {handle : Handle}
      {read inbox rest : List Event} {turns : Nat} :
      Attends config w q → w.notes = [] →
      Serves o config draws w q (point.todo o) rest
        (point.grants + credits config.flowControl.explicit inbox) turns →
      point.Fits config w handle → read ++ (inbox ++ rest) = echoed o config draws →
      (∀ e ∈ read, e.isFinal = false) →
      Holds
        { exchange := {
            engine := around w built, handle := handle, credit := o.credit, inbox := inbox
            printed := (read.map Event.render).reverse }
          point := point }
        built (idle built + point.moves + turns + cost config.flowControl.explicit inbox +
          cost config.flowControl.explicit rest)
  | done {w : Host} {q : List Task} {built : Bool} {handle : Handle} {asks turns : Nat} :
      Attends config w q → w.notes = [] → Serves o config draws w q [] [] asks turns →
      Holds
        { exchange := {
            engine := around w built, handle := handle, credit := o.credit
            printed := ((echoed o config draws).map Event.render).reverse
            ending := some .finished }
          point := .reading }
        built (idle built + turns)

variable {o config draws}
variable {r s : Race} {built : Bool} {k : Nat}

/-- One of the first calls posts its task. -/
theorem holds_posted {w : Host} {q : List Task} {t : Task} {point : Point} (next : Point)
    {inbox rest read : List Event} {turns : Nat} (ha : Attends config w q) (hn : w.notes = [])
    (hs : Serves o config draws w q (point.todo o) rest
      (point.grants + credits config.flowControl.explicit inbox) turns)
    (htodo : point.todo o = t :: next.todo o) (hmoves : point.moves = next.moves + 1)
    (hgrants : point.grants = next.grants) (hnext : next ≠ .init ∧ next ≠ .start)
    (hposts : next ≠ .granting) (live : LiveSet)
    (hsplit : read ++ (inbox ++ rest) = echoed o config draws)
    (hread : ∀ e ∈ read, e.isFinal = false) :
    ∃ n, idle built + point.moves + turns + cost config.flowControl.explicit inbox +
        cost config.flowControl.explicit rest = n + 1 ∧
      Holds o config draws
        { exchange := {
            engine := around { w.push [t] with live := live } built, handle := stream
            credit := o.credit, inbox := inbox, printed := (read.map Event.render).reverse }
          point := next } built n := by
  have hattends := (ha.push t).claimed live w.nextHandle
  rw [htodo, hgrants] at hs
  have hserves := hs.posted.of_eq (v := { w.push [t] with live := live }) rfl rfl rfl rfl
  have hfits : next.Fits config { w.push [t] with live := live } stream :=
    Point.fits_stream hnext (absurd · hposts)
  refine ⟨_, ?_, .going hattends hn hserves hfits hsplit hread⟩
  omega

/-- The echo ends with its only final event. -/
theorem echoed_ends (o : Options) (config : Config) (draws : Draws) :
    ∃ es, echoed o config draws = es ++ [.complete] ∧ ∀ e ∈ es, e.isFinal = false := by
  let body : List Event :=
    if config.flowControl.explicit then
      (slices o.credit (Text.Utf8.encode o.body)).map (.data · false)
    else if (Text.Utf8.encode o.body).isEmpty then [] else [.data (Text.Utf8.encode o.body) false]
  have hbody : ∀ e ∈ body, e.isFinal = false := by
    intro e he
    unfold body at he
    split at he
    · obtain ⟨bytes, -, rfl⟩ := List.mem_map.mp he
      rfl
    · split at he
      · cases he
      · rw [List.mem_singleton.mp he]
        rfl
  refine ⟨.headers (.ofList [(":status", "200"),
    ("x-loopback-cluster", cluster o config draws)]) false ::
      (body ++ [.trailers (.ofList [("x-loopback-trailer", "done")])]), ?_, ?_⟩
  · show _ :: (body ++ [_, _]) = _
    simp
  · intro e he
    rcases List.mem_cons.mp he with rfl | he
    · rfl
    · rcases List.mem_append.mp he with he | he
      · exact hbody e he
      · rw [List.mem_singleton.mp he]
        rfl

/-- Nothing is read after the final event. -/
theorem nothing_after_final {xs ys : List Event} {e : Event}
    (hsplit : xs ++ (e :: ys) = echoed o config draws) (he : e.isFinal = true) : ys = [] := by
  obtain ⟨es, hes, hgoesOn⟩ := echoed_ends o config draws
  rw [hes] at hsplit
  induction ys using List.reverseRecOn with
  | nil => rfl
  | append_singleton ys z _ =>
    have hprefix : xs ++ (e :: ys) = es := by
      rw [← List.cons_append, ← List.append_assoc] at hsplit
      exact (List.append_inj' hsplit rfl).1
    have hmem : e ∈ es := hprefix ▸ List.mem_append_right xs List.mem_cons_self
    rw [hgoesOn e hmem] at he
    cases he

theorem credits_of_final (explicit : Bool) {e : Event} (he : e.isFinal = true) :
    credits explicit [e] = 0 := by
  cases e with
  | headers _ _ | data _ _ | trailers _ => cases he
  | error _ | complete | cancel => cases explicit <;> rfl

theorem credits_singleton (explicit : Bool) (e : Event) :
    credits explicit [e] = (explicit && e.wantsCredit).toNat := by
  cases explicit with
  | false => rfl
  | true =>
    show [e].countP Event.wantsCredit = (true && e.wantsCredit).toNat
    rw [List.countP_singleton, Bool.true_and]
    cases e.wantsCredit <;> rfl

/-- An event is taken: it is the last, or asks for a grant, or neither. -/
theorem holds_taken {w : Host} {q : List Task} {e : Event} {inbox rest read : List Event}
    {turns : Nat} (ha : Attends config w q) (hn : w.notes = [])
    (hs : Serves o config draws w q [] rest
      (credits config.flowControl.explicit (e :: inbox)) turns)
    (hsplit : read ++ (e :: inbox ++ rest) = echoed o config draws)
    (hread : ∀ e ∈ read, e.isFinal = false)
    (hm : main o {
      exchange := {
        engine := around w built, handle := stream, credit := o.credit, inbox := e :: inbox
        printed := (read.map Event.render).reverse }
      point := .reading } = some s) :
    ∃ n, idle built + 0 + turns + cost config.flowControl.explicit (e :: inbox) +
        cost config.flowControl.explicit rest = n + 1 ∧
      Holds o config draws s built n := by
  have hprinted : e.render :: (read.map Event.render).reverse =
      ((read ++ [e]).map Event.render).reverse := by simp
  have hmode : Exchange.explicit {
      engine := around w built, handle := stream, credit := o.credit, inbox := e :: inbox
      printed := (read.map Event.render).reverse } = config.flowControl.explicit := by
    unfold Exchange.explicit
    rw [client_around, ha.explicit]
  have hcons : cost config.flowControl.explicit (e :: inbox) =
      1 + 2 * credits config.flowControl.explicit [e] +
        cost config.flowControl.explicit inbox := cost_append _ [e] inbox
  unfold main at hm
  dsimp only at hm
  rw [hprinted, hmode] at hm
  by_cases hfinal : e.isFinal = true
  · rw [if_pos hfinal] at hm
    obtain rfl := Option.some.inj hm
    obtain ⟨hinbox, hrest⟩ := List.append_eq_nil_iff.mp (nothing_after_final hsplit hfinal)
    subst hinbox hrest
    have hall : read ++ [e] = echoed o config draws := hsplit
    have hcredits := credits_of_final config.flowControl.explicit hfinal
    rw [hall]
    refine ⟨_, ?_, .done ha hn hs⟩
    rw [hcons, hcredits]
    unfold cost
    rw [credits_nil, List.length_nil]
    omega
  · have hnext : read ++ [e] ++ (inbox ++ rest) = echoed o config draws := by
      rw [List.append_assoc]
      exact hsplit
    have hread' : ∀ a ∈ read ++ [e], a.isFinal = false := by
      intro a ha
      rcases List.mem_append.mp ha with ha | ha
      · exact hread a ha
      · rw [List.mem_singleton.mp ha]
        exact Bool.eq_false_iff.mpr hfinal
    have hadd : credits config.flowControl.explicit (e :: inbox) =
        credits config.flowControl.explicit [e] + credits config.flowControl.explicit inbox :=
      Response.credits_append _ [e] inbox
    have hone : credits config.flowControl.explicit [e] =
        (config.flowControl.explicit && e.wantsCredit).toNat := credits_singleton _ e
    rw [if_neg hfinal] at hm
    obtain rfl := Option.some.inj hm
    rw [hadd] at hs
    cases hwants : (config.flowControl.explicit && e.wantsCredit) with
    | true =>
      have hexplicit : config.flowControl.explicit = true := by
        cases hx : config.flowControl.explicit with
        | true => rfl
        | false =>
          rw [hx] at hwants
          cases hwants
      have hfits : Point.granting.Fits config w stream :=
        Point.fits_stream ⟨Point.noConfusion, Point.noConfusion⟩ fun _ => hexplicit
      rw [hone, hwants] at hs
      refine ⟨idle built + 2 + turns + cost config.flowControl.explicit inbox +
        cost config.flowControl.explicit rest, ?_, .going ha hn hs hfits hnext hread'⟩
      rw [hcons, hone, hwants, Bool.toNat_true]
      omega
    | false =>
      have hfits : Point.reading.Fits config w stream :=
        Point.fits_stream ⟨Point.noConfusion, Point.noConfusion⟩ Point.noConfusion
      rw [hone, hwants] at hs
      refine ⟨idle built + 0 + turns + cost config.flowControl.explicit inbox +
        cost config.flowControl.explicit rest, ?_, .going ha hn hs hfits hnext hread'⟩
      rw [hcons, hone, hwants, Bool.toNat_false]
      omega

/-- The grant that an event asked for is posted. -/
theorem holds_granted (hcredit : config.flowControl.explicit = true → 0 < o.credit)
    {w : Host} {q : List Task} {inbox rest read : List Event} {turns : Nat}
    (ha : Attends config w q) (hn : w.notes = [])
    (hs : Serves o config draws w q [] rest
      (1 + credits config.flowControl.explicit inbox) turns)
    (hexplicit : config.flowControl.explicit = true)
    (hsplit : read ++ (inbox ++ rest) = echoed o config draws)
    (hread : ∀ e ∈ read, e.isFinal = false)
    (hm : main o {
      exchange := {
        engine := around w built, handle := stream, credit := o.credit, inbox := inbox
        printed := (read.map Event.render).reverse }
      point := .granting } = some s) :
    ∃ n, idle built + 2 + turns + cost config.flowControl.explicit inbox +
        cost config.flowControl.explicit rest = n + 1 ∧
      Holds o config draws s built n := by
  have hcall := call_resume (x := {
    engine := around w built, handle := stream, credit := o.credit, inbox := inbox
    printed := (read.map Event.render).reverse }) ha rfl rfl hexplicit (hcredit hexplicit) stream
  obtain rfl := Option.some.inj hm
  rw [hcall]
  rw [Nat.add_comm] at hs
  have hserves : Serves o config draws (w.push [grant o]) (q ++ [grant o]) [] rest
      (Point.reading.grants + credits config.flowControl.explicit inbox) (turns + 1) := by
    rw [show Point.reading.grants = 0 from rfl, Nat.zero_add]
    exact hs.granted.of_eq rfl rfl rfl rfl
  have hfits : Point.reading.Fits config (w.push [grant o]) stream :=
    Point.fits_stream ⟨Point.noConfusion, Point.noConfusion⟩ Point.noConfusion
  refine ⟨idle built + 0 + (turns + 1) + cost config.flowControl.explicit inbox +
    cost config.flowControl.explicit rest, ?_,
    .going (ha.push (grant o)) hn hserves hfits hsplit hread⟩
  omega

/-- The main task goes on. -/
theorem holds_main (hcredit : config.flowControl.explicit = true → 0 < o.credit)
    (h : Holds o config draws r built k) (hm : r.main o = some s) :
    ∃ n, k = n + 1 ∧ Holds o config draws s built n := by
  cases h with
  | done ha hn hs => cases hm
  | @going w q _ point handle read inbox rest turns ha hn hs hfits hsplit hread =>
    cases point with
    | init =>
      unfold main at hm
      dsimp only at hm
      rw [call_init ha] at hm
      obtain rfl := Option.some.inj hm
      have hname : (⟨w.nextHandle⟩ : Handle) = stream := by
        rw [hfits.number rfl]
        rfl
      rw [engine_around, hname]
      have hattends := ha.claimed w.live (w.nextHandle + 1)
      have hserves := hs.of_eq (v := { w with nextHandle := w.nextHandle + 1 }) rfl rfl rfl rfl
      have hnext : Point.start.Fits config { w with nextHandle := w.nextHandle + 1 } stream :=
        ⟨Point.noConfusion, fun _ => hfits.live (.inl rfl), fun _ => rfl, Point.noConfusion⟩
      refine ⟨_, ?_, .going hattends hn hserves hnext hsplit hread⟩
      have hmoves : Point.init.moves = Point.start.moves + 1 := rfl
      omega
    | start =>
      obtain rfl := hfits.handle Point.noConfusion
      obtain ⟨live, hcall⟩ := call_start (x := {
        engine := around w built, handle := stream, credit := o.credit, inbox := inbox
        printed := (read.map Event.render).reverse }) ha rfl rfl (hfits.live (.inr rfl)) stream
        .silent
      obtain rfl := Option.some.inj hm
      rw [hcall]
      exact holds_posted .headers ha hn hs rfl rfl rfl ⟨Point.noConfusion, Point.noConfusion⟩
        Point.noConfusion live hsplit hread
    | headers =>
      obtain rfl := hfits.handle Point.noConfusion
      have hcall := call_post (x := {
        engine := around w built, handle := stream, credit := o.credit, inbox := inbox
        printed := (read.map Event.render).reverse }) ha rfl rfl
        (.operate (.sendHeaders stream (Exchange.request o) false))
      obtain rfl := Option.some.inj hm
      rw [hcall]
      exact holds_posted .data ha hn hs rfl rfl rfl ⟨Point.noConfusion, Point.noConfusion⟩
        Point.noConfusion w.live hsplit hread
    | data =>
      obtain rfl := hfits.handle Point.noConfusion
      have hcall := call_post (x := {
        engine := around w built, handle := stream, credit := o.credit, inbox := inbox
        printed := (read.map Event.render).reverse }) ha rfl rfl
        (.operate (.sendData stream (Text.Utf8.encode o.body) true))
      obtain rfl := Option.some.inj hm
      rw [hcall]
      exact holds_posted .reading ha hn hs rfl rfl rfl ⟨Point.noConfusion, Point.noConfusion⟩
        Point.noConfusion w.live hsplit hread
    | reading =>
      obtain rfl := hfits.handle Point.noConfusion
      cases inbox with
      | nil => cases hm
      | cons e inbox =>
        rw [show Point.reading.grants = 0 from rfl, Nat.zero_add] at hs
        exact holds_taken ha hn hs hsplit hread hm
    | granting =>
      obtain rfl := hfits.handle Point.noConfusion
      exact holds_granted hcredit ha hn hs (hfits.explicit rfl) hsplit hread hm

/-- The client is built, and what waits goes to the queue. -/
theorem dispatch_build {w : Host} {q : List Task} (ha : Attends config w q)
    (hr : r.exchange.engine = around w false) :
    r.dispatch = some { r with exchange := { r.exchange with engine := around w true } } := by
  have hphase : (around w false).phase = .building := rfl
  unfold dispatch
  rw [hr, if_pos hphase, build_around ha]

theorem dispatch_idle {w : Host} (ha : Attends config w [])
    (hr : r.exchange.engine = around w true) : r.dispatch = none := by
  have hnone : w.intake.next? 0 = none := by
    rw [ha.intake]
    rfl
  have hturn : (around w true).turn = none := by
    unfold Engine.turn around
    dsimp only
    rw [hnone]
    rfl
  have hphase : ¬ (around w true).phase = .building := Phase.noConfusion
  unfold dispatch Exchange.deliver
  rw [hr, if_neg hphase, hturn]
  rfl

/-- A turn of the dispatcher; what was told is in the inbox then. -/
theorem dispatch_turn {u w : Host} {t : Task} {q : List Task} {es : List Event}
    (ha : Attends config w (t :: q)) (hr : r.exchange.engine = around w true)
    (ht : (∃ h app, t = .start h app) ∨ ∃ op, t = .operate op)
    (hturn : ({ w with intake := opened q } : Host).turn t = .ok u)
    (hnotes : u.notes = es.map (.told stream)) :
    r.dispatch = some { r with exchange := { r.exchange with
      engine := around u.forget true, inbox := r.exchange.inbox ++ es } } := by
  have hrun : ({ host := { w with intake := opened q }, phase := .serving } : Engine).runTask t =
      { host := u, phase := .serving } := by
    rcases ht with ⟨h, app, rfl⟩ | ⟨op, rfl⟩ <;>
    · unfold Engine.runTask
      dsimp only
      rw [hturn]
  have hengine : (around w true).turn = some { host := u, phase := .serving } := by
    unfold Engine.turn around
    dsimp only
    rw [ha.pop.1]
    dsimp only
    rw [hrun]
  have hheard : (es.map (Note.told stream)).filterMap Exchange.heard? = es := by
    rw [List.filterMap_map]
    exact List.filterMap_some
  have hphase : ¬ (around w true).phase = .building := Phase.noConfusion
  unfold dispatch Exchange.deliver
  rw [hr, if_neg hphase, hengine, Option.map_some, Option.map_some]
  dsimp only
  rw [hnotes, hheard]
  rfl

/-- The dispatcher goes on: it builds its client, or takes a turn. -/
theorem serves_dispatch (herror : o.errorCode = none)
    (hcredit : config.flowControl.explicit = true → 0 < o.credit) {w : Host}
    {q todo : List Task} {rest : List Event} {asks turns : Nat} (ha : Attends config w q)
    (hn : w.notes = []) (hs : Serves o config draws w q todo rest asks turns)
    (hr : r.exchange.engine = around w built) (hd : r.dispatch = some s) :
    (built = false ∧ s = { r with exchange := { r.exchange with engine := around w true } }) ∨
      built = true ∧ q ≠ [] ∧ ∃ u q' n es more, turns = n + 1 ∧ Attends config u q' ∧
        u.notes = [] ∧ rest = es ++ more ∧
        Serves o config draws u q' todo more
          (asks + credits config.flowControl.explicit es) n ∧
        s = { r with exchange := { r.exchange with
          engine := around u true, inbox := r.exchange.inbox ++ es } } := by
  cases built with
  | false =>
    rw [dispatch_build ha hr] at hd
    exact .inl ⟨rfl, (Option.some.inj hd).symm⟩
  | true =>
    cases q with
    | nil =>
      rw [dispatch_idle ha hr] at hd
      cases hd
    | cons t q =>
      obtain ⟨ht, n, u, es, more, hturns, hu⟩ := hs.turn herror hcredit ha hn
      rw [dispatch_turn ha hr ht hu.turn hu.notes] at hd
      refine .inr ⟨rfl, List.cons_ne_nil t q, u.swept.forget, _, n, es, more, hturns,
        hu.attends.swept_forget, rfl, hu.events, hu.serves.of_eq rfl rfl rfl rfl,
        (Option.some.inj hd).symm⟩

/-- The dispatcher goes on, and it is built then. -/
theorem holds_dispatch (herror : o.errorCode = none)
    (hcredit : config.flowControl.explicit = true → 0 < o.credit)
    (h : Holds o config draws r built k) (hd : r.dispatch = some s) :
    ∃ n, k = n + 1 ∧ Holds o config draws s true n := by
  have hbuilt : idle false = idle true + 1 := rfl
  cases h with
  | @going w q _ point handle read inbox rest turns ha hn hs hfits hsplit hread =>
    rcases serves_dispatch herror hcredit ha hn hs rfl hd with
      ⟨rfl, rfl⟩ | ⟨rfl, hq, u, q', n, es, more, rfl, hu, hnotes, hrest, hserves, rfl⟩
    · refine ⟨_, ?_, .going ha hn hs hfits hsplit hread⟩
      dsimp only
      omega
    · -- before the stream is started there is nothing in the queue
      have hstarted : point ≠ .init ∧ point ≠ .start := by
        refine ⟨?_, ?_⟩ <;> rintro rfl <;> exact hq hs.queue_before_start
      have hadd : credits config.flowControl.explicit (inbox ++ es) =
          credits config.flowControl.explicit inbox + credits config.flowControl.explicit es :=
        Response.credits_append _ inbox es
      have hsplit' : read ++ (inbox ++ es ++ more) = echoed o config draws := by
        rw [List.append_assoc inbox, ← hrest]
        exact hsplit
      rw [Nat.add_assoc, ← hadd] at hserves
      refine ⟨_, ?_, .going hu hnotes hserves (hfits.past hstarted) hsplit' hread⟩
      dsimp only
      rw [hrest, cost_append, cost_append]
      omega
  | @done w q _ handle asks turns ha hn hs =>
    rcases serves_dispatch herror hcredit ha hn hs rfl hd with
      ⟨rfl, rfl⟩ | ⟨rfl, -, u, q', n, es, more, rfl, hu, hnotes, hrest, hserves, rfl⟩
    · refine ⟨_, ?_, .done ha hn hs⟩
      omega
    · obtain ⟨hes, hmore⟩ := List.append_eq_nil_iff.mp hrest.symm
      subst hes hmore
      refine ⟨_, ?_, .done hu hnotes hserves⟩
      omega

/-! ### Where it leads -/

theorem queue_around {w : Host} {q : List Task} (ha : Attends config w q)
    (hr : r.exchange.engine = around w built) : r.queue = q := by
  unfold queue
  rw [hr]
  cases built with
  | true =>
    show w.intake.waiting ++ w.intake.pending 0 = q
    rw [ha.intake]
    rfl
  | false => exact (List.append_nil _).trans ha.pending

/-- While the main task waits for an event the dispatcher has work. -/
theorem Holds.busy (h : Holds o config draws r built k) (hwaits : r.Waits) : r.queue ≠ [] := by
  cases h with
  | done _ _ _ => cases hwaits.2.1
  | @going w q _ point handle read inbox rest turns ha hn hs hfits hsplit hread =>
    obtain ⟨hpoint, -, hinbox⟩ := hwaits
    obtain rfl : point = .reading := hpoint
    obtain rfl : inbox = [] := hinbox
    rw [queue_around ha rfl]
    rw [credits_nil] at hs
    refine hs.busy.resolve_left ?_
    -- with nothing left to tell the last event would have been read
    rintro rfl
    obtain ⟨es, hes, -⟩ := echoed_ends o config draws
    have hall : read = es ++ [.complete] := by
      rw [← hes, ← hsplit]
      simp
    have hfinal := hread .complete (hall ▸ List.mem_append_right es List.mem_cons_self)
    cases hfinal

/-- As long as the exchange has not ended one of the sides can go on. -/
theorem Holds.goes_on (herror : o.errorCode = none)
    (hcredit : config.flowControl.explicit = true → 0 < o.credit)
    (h : Holds o config draws r built k) (hend : r.exchange.ending = none) :
    (r.main o).isSome = true ∨ r.dispatch.isSome = true := by
  by_cases hwaits : r.Waits
  · right
    have hbusy := h.busy hwaits
    cases h with
    | done _ _ _ => cases hend
    | @going w q _ point handle read inbox rest turns ha hn hs _ _ _ =>
      rw [queue_around ha rfl] at hbusy
      cases built with
      | false => rw [dispatch_build ha rfl, Option.isSome_some]
      | true =>
        obtain ⟨t, q, rfl⟩ := List.exists_cons_of_ne_nil hbusy
        obtain ⟨ht, n, u, es, more, -, hu⟩ := hs.turn herror hcredit ha hn
        rw [dispatch_turn ha rfl ht hu.turn hu.notes, Option.isSome_some]
  · left
    unfold main
    cases hpoint : r.point with
    | init =>
      dsimp only
      split <;> rfl
    | start | headers | data | granting => rfl
    | reading =>
      cases hinbox : r.exchange.inbox with
      | nil => exact absurd ⟨hpoint, hend, hinbox⟩ hwaits
      | cons e inbox =>
        dsimp only
        rw [hend, hinbox]
        dsimp only
        split <;> rfl

/-- What was printed is the echo so far, and all of it once the exchange has ended. -/
theorem Holds.lines (h : Holds o config draws r built k) :
    r.exchange.lines <+: (echoed o config draws).map Event.render ∧
      ∀ e, r.exchange.ending = some e →
        e = .finished ∧ r.exchange.lines = (echoed o config draws).map Event.render := by
  cases h with
  | @going w q _ point handle read inbox rest turns ha hn hs hfits hsplit hread =>
    refine ⟨?_, fun e he => by cases he⟩
    unfold Exchange.lines
    rw [List.reverse_reverse, ← hsplit, List.map_append]
    exact List.prefix_append _ _
  | done _ _ _ =>
    unfold Exchange.lines
    rw [List.reverse_reverse]
    refine ⟨List.prefix_refl _, fun e he => ⟨?_, rfl⟩⟩
    cases he
    rfl

/-- Any number of moves, in any order. -/
theorem holds_reaches (herror : o.errorCode = none)
    (hcredit : config.flowControl.explicit = true → 0 < o.credit) {n : Nat}
    (hn : Reaches o n r s) (h : Holds o config draws r built k) :
    ∃ built' k', k = k' + n ∧ (built = true → built' = true) ∧
      Holds o config draws s built' k' := by
  induction hn generalizing built k with
  | refl r => exact ⟨built, k, rfl, id, h⟩
  | main hm _ ih =>
    obtain ⟨m, rfl, hnext⟩ := holds_main hcredit h hm
    obtain ⟨built', k', hk, hbuilt, hlast⟩ := ih hnext
    exact ⟨built', k', by omega, hbuilt, hlast⟩
  | dispatch hd _ ih =>
    obtain ⟨m, rfl, hnext⟩ := holds_dispatch herror hcredit h hd
    obtain ⟨built', k', hk, hbuilt, hlast⟩ := ih hnext
    exact ⟨built', k', by omega, fun _ => hbuilt rfl, hlast⟩

theorem start_eq {engine : Engine} (hstart : Engine.start config true draws = .ok engine) :
    engine = {
      host := {
        client := Client.ofConfig config draws
        network := config.network.preferred
        pipeline := { answers := true } }
      phase := .building } := by
  unfold Engine.start at hstart
  split at hstart
  · cases hstart
  · split at hstart
    · cases hstart
    · exact (Except.ok.inj hstart).symm

theorem cost_le (explicit : Bool) (es : List Event) : cost explicit es ≤ 3 * es.length := by
  have hcount : es.countP Event.wantsCredit ≤ es.length := List.countP_le_length
  unfold cost credits
  split <;> omega

/-- The body comes in no more pieces than it has bytes. -/
theorem length_told (hcredit : config.flowControl.explicit = true → 0 < o.credit) (body : Bytes) :
    (Response.told config.flowControl.explicit o.credit body).length ≤ body.length := by
  unfold Response.told
  by_cases hx : config.flowControl.explicit = true
  · rw [if_pos hx, List.length_map]
    exact length_slices (hcredit hx) body
  · rw [if_neg hx]
    cases body with
    | nil => exact Nat.le_refl 0
    | cons b body => exact Nat.succ_le_succ (Nat.zero_le _)

/-- The echo takes three moves for each byte at most, and five more. -/
theorem cost_echoed (draws : Draws)
    (hcredit : config.flowControl.explicit = true → 0 < o.credit) :
    cost config.flowControl.explicit (echoed o config draws) ≤
      3 * (Text.Utf8.encode o.body).length + 5 := by
  have hsplit : echoed o config draws =
      [.headers (.ofList [(":status", "200"), ("x-loopback-cluster",
        cluster o config draws)]) false] ++
      (Response.told config.flowControl.explicit o.credit (Text.Utf8.encode o.body) ++
        [.trailers (.ofList [("x-loopback-trailer", "done")]), .complete]) := rfl
  have hheaders (block : Headers) : cost config.flowControl.explicit [.headers block false] ≤ 3 :=
    cost_le _ _
  have htold := cost_le config.flowControl.explicit
    (Response.told config.flowControl.explicit o.credit (Text.Utf8.encode o.body))
  have hlength := length_told hcredit (Text.Utf8.encode o.body)
  have hend (block : Headers) :
      cost config.flowControl.explicit [.trailers block, .complete] = 2 := by
    cases config.flowControl.explicit <;> rfl
  rw [hsplit, cost_append, cost_append, hend]
  have := hheaders (.ofList [(":status", "200"),
    ("x-loopback-cluster", cluster o config draws)])
  omega

/-- A race that has not begun. -/
theorem holds_begin {engine : Engine} (hstart : Engine.start config true draws = .ok engine)
    (hcredit : config.flowControl.explicit = true → 0 < o.credit) :
    ∃ k, k ≤ 3 * (Text.Utf8.encode o.body).length + 16 ∧
      Holds o config draws (begin engine o) false k := by
  let w : Host := {
    client := Client.ofConfig config draws
    network := config.network.preferred
    pipeline := { answers := true }
    intake := opened [] }
  have hengine : engine = around w false := start_eq hstart
  have hapart {h k : Handle} {b b' : Bucket} {s t : Stream}
      (hs : w.client.entry h = some (b, s)) (_ : w.client.entry k = some (b', t))
      (_ : s.id.serial = t.id.serial) : h = k := by cases hs
  have hattends : Attends config w [] :=
    ⟨⟨Client.sound_ofConfig config draws, rfl, (fun n app hn => by cases hn), rfl, hapart⟩,
      rfl, rfl, rfl, rfl, rfl⟩
  have hserves : Serves o config draws w [] (Point.init.todo o) (echoed o config draws)
      (Point.init.grants + credits config.flowControl.explicit [])
      (3 + (answer o config draws).length) := by
    rw [credits_nil]
    exact .unstarted rfl rfl rfl
  have hlength := length_answer o config draws
  have hcost := cost_echoed draws hcredit
  have hnone : cost config.flowControl.explicit [] = 0 := by
    unfold cost
    rw [credits_nil]
    rfl
  have hidle : idle false = 1 := rfl
  have hmoves : Point.init.moves = 4 := rfl
  unfold begin
  rw [hengine]
  refine ⟨_, ?_, @Holds.going o config draws w [] false .init ⟨0⟩ [] [] _ _ hattends rfl hserves
    ⟨fun _ => rfl, fun _ => rfl, fun h => absurd rfl h, Point.noConfusion⟩ rfl nofun⟩
  omega

theorem Holds.serving (h : Holds o config draws r true k) :
    r.exchange.engine.phase = .serving := by
  cases h <;> rfl

/-- The reader takes an event and answers it in one go, in the program's own order. -/
theorem reaches_read {x y : Exchange} (hread : x.read = some y) :
    ∃ n, Reaches o (n + 1) ⟨x, .reading⟩ ⟨y, .reading⟩ := by
  obtain ⟨engine, handle, credit, inbox, printed, ending⟩ := x
  cases ending with
  | some e => cases hread
  | none =>
    cases inbox with
    | nil => cases hread
    | cons e inbox =>
      let x : Exchange :=
        { engine := engine, handle := handle, credit := credit, inbox := inbox
          printed := e.render :: printed }
      unfold Exchange.read at hread
      dsimp only at hread
      by_cases hfinal : e.isFinal = true
      · rw [if_pos hfinal] at hread
        refine ⟨0, .main ?_ (.refl _)⟩
        rw [← Option.some.inj hread]
        exact if_pos hfinal
      · rw [if_neg hfinal] at hread
        have htaken : main o ⟨⟨engine, handle, credit, e :: inbox, printed, none⟩, .reading⟩ =
            some ⟨x, if x.explicit && e.wantsCredit then .granting else .reading⟩ :=
          if_neg hfinal
        by_cases hwants : (x.explicit && e.wantsCredit) = true
        · rw [if_pos hwants] at htaken
          refine ⟨1, .main htaken (.main ?_ (.refl _))⟩
          rw [← Option.some.inj ((if_pos hwants).symm.trans hread)]
          rfl
        · rw [if_neg hwants] at htaken
          refine ⟨0, .main ?_ (.refl _)⟩
          rw [htaken, ← Option.some.inj ((if_neg hwants).symm.trans hread)]

theorem main_of_read_none {x : Exchange} (hread : x.read = none) :
    main o ⟨x, .reading⟩ = none := by
  obtain ⟨engine, handle, credit, inbox, printed, ending⟩ := x
  cases ending with
  | some e => rfl
  | none =>
    cases inbox with
    | nil => rfl
    | cons e inbox =>
      unfold Exchange.read at hread
      dsimp only at hread
      split at hread
      · cases hread
      · split at hread <;> cases hread

/-- The program makes its moves in one of the possible orders, up to the end. -/
theorem holds_run (herror : o.errorCode = none)
    (hcredit : config.flowControl.explicit = true → 0 < o.credit) {n : Nat} {x : Exchange}
    (h : Holds o config draws ⟨x, .reading⟩ true k) (hk : k < n) :
    (x.run n).ending = some .finished ∧
      (x.run n).lines = (echoed o config draws).map Event.render := by
  induction n generalizing x k with
  | zero => exact absurd hk (Nat.not_lt_zero k)
  | succ n ih =>
    unfold Exchange.run
    cases hend : x.ending with
    | some e =>
      obtain ⟨rfl, hlines⟩ := h.lines.2 e hend
      exact ⟨hend, hlines⟩
    | none =>
      rw [if_neg (by simp)]
      cases hread : x.read with
      | some y =>
        obtain ⟨m, hm⟩ := reaches_read (o := o) hread
        obtain ⟨built, k', rfl, hbuilt, hnext⟩ := holds_reaches herror hcredit hm h
        obtain rfl := hbuilt rfl
        exact ih hnext (by omega)
      | none =>
        have hphase : ¬ x.engine.phase = .building := by
          rw [show x.engine.phase = _ from h.serving]
          exact Phase.noConfusion
        have hdispatch : dispatch ⟨x, .reading⟩ = x.deliver.map fun y => ⟨y, .reading⟩ :=
          if_neg hphase
        have hwait := main_of_read_none (o := o) hread
        have hsome := (h.goes_on herror hcredit hend).resolve_left (by simp [hwait])
        rw [hdispatch, Option.isSome_map] at hsome
        obtain ⟨y, hy⟩ := Option.isSome_iff_exists.mp hsome
        rw [hy, Option.map_some] at hdispatch
        obtain ⟨m, rfl, hnext⟩ := holds_dispatch herror hcredit h hdispatch
        rw [hy]
        exact ih hnext (Nat.lt_of_succ_lt_succ hk)

theorem handle_call (x : Exchange) (c : Call) : (x.call c).handle = x.handle := by
  unfold Exchange.call
  split
  · rfl
  · split <;> rfl

/-- The program's own order starts with the client built and all calls made. -/
theorem reaches_begin {engine : Engine} (hphase : engine.phase = .building)
    (ha : engine.host.attached = true) :
    ∃ r, (begin engine o).dispatch = some r ∧
      Reaches o 4 r ⟨Exchange.begin engine.build o, .reading⟩ := by
  have hcall : engine.build.host.call .init =
      ({ engine.build.host with nextHandle := engine.build.host.nextHandle + 1 },
        .handle ⟨engine.build.host.nextHandle⟩) := by
    have hbuilt : engine.build.host.attached = true := ha
    unfold Host.call
    dsimp only
    rw [if_pos hbuilt]
  let built : Exchange := { engine := engine.build, handle := ⟨0⟩, credit := o.credit }
  let named : Exchange := {
    engine := { engine.build with
      host := { engine.build.host with nextHandle := engine.build.host.nextHandle + 1 } }
    handle := ⟨engine.build.host.nextHandle⟩
    credit := o.credit }
  let started := named.call (.start named.handle .silent)
  let headed := started.call
    (.post (.operate (.sendHeaders named.handle (Exchange.request o) false)))
  let ended := headed.call
    (.post (.operate (.sendData named.handle (Text.Utf8.encode o.body) true)))
  have hstarted : started.handle = named.handle := handle_call _ _
  have hheaded : headed.handle = named.handle := (handle_call _ _).trans hstarted
  have hbegin : Exchange.begin engine.build o = ended := by
    unfold Exchange.begin
    rw [hcall]
  have hinit : main o ⟨built, .init⟩ = some ⟨named, .start⟩ := by
    unfold main
    dsimp only [built]
    rw [hcall]
  have hstart : main o ⟨named, .start⟩ = some ⟨started, .headers⟩ := rfl
  have hheaders : main o ⟨started, .headers⟩ = some ⟨headed, .data⟩ := by
    unfold main
    dsimp only
    rw [hstarted]
  have hdata : main o ⟨headed, .data⟩ = some ⟨ended, .reading⟩ := by
    unfold main
    dsimp only
    rw [hheaded]
  rw [hbegin]
  exact ⟨⟨built, .init⟩, if_pos hphase,
    .main hinit (.main hstart (.main hheaders (.main hdata (.refl _))))⟩

/-- What the command line prints does not depend on how its two sides interleave.
In whatever order they move, while one waits the other can go on; no more than so
many moves are made; what is printed is the beginning of the echo; and the exchange
ends by reading the last event, with the whole echo printed and exit code 0. The
program, which lets the reader go first, shows just that. -/
theorem outcome_independent_of_timing (o : Options) (config : Config) (draws : Draws)
    (engine : Engine) (hstart : Engine.start config true draws = .ok engine)
    (herror : o.errorCode = none)
    (hcredit : config.flowControl.explicit = true → 0 < o.credit) :
    let shown := (echoed o config draws).map Event.render
    (∀ n r, Reaches o n (begin engine o) r →
      n ≤ 3 * (Text.Utf8.encode o.body).length + 16 ∧
      (r.Waits → r.queue ≠ []) ∧
      (r.exchange.ending = none → (r.main o).isSome = true ∨ r.dispatch.isSome = true) ∧
      r.exchange.lines <+: shown ∧
      (r.exchange.ending.isSome = true →
        r.exchange.ending = some .finished ∧
        r.exchange.report = { exit := 0, lines := shown })) ∧
    o.run config draws = { exit := 0, lines := shown } := by
  intro shown
  obtain ⟨k, hk, hbegin⟩ := holds_begin hstart hcredit
  have hreport {x : Exchange} (hend : x.ending = some .finished) (hlines : x.lines = shown) :
      x.report = { exit := 0, lines := shown } := by
    unfold Exchange.report
    rw [hend, ← hlines]
  constructor
  · intro n r hr
    obtain ⟨built, k', hmoves, -, h⟩ := holds_reaches herror hcredit hr hbegin
    refine ⟨by omega, h.busy, h.goes_on herror hcredit, h.lines.1, fun hend => ?_⟩
    obtain ⟨e, he⟩ := Option.isSome_iff_exists.mp hend
    obtain ⟨rfl, hlines⟩ := h.lines.2 e he
    exact ⟨he, hreport he hlines⟩
  · have hengine := start_eq hstart
    obtain ⟨r, hr, hown⟩ := reaches_begin (o := o)
      (show engine.phase = .building by rw [hengine]) (by rw [hengine])
    obtain ⟨m, rfl, hbuilt⟩ := holds_dispatch herror hcredit hbegin hr
    obtain ⟨built, k', rfl, hkept, hreading⟩ := holds_reaches herror hcredit hown hbuilt
    obtain rfl := hkept rfl
    have henough : k' < movesFor (Text.Utf8.encode o.body).length := by
      unfold movesFor
      omega
    obtain ⟨hend, hlines⟩ := holds_run herror hcredit hreading henough
    unfold Options.run
    rw [hstart]
    exact hreport hend hlines

/-- Five bytes at two for each grant. -/
theorem outcome_independent_of_timing_in_pieces :
    let o : Options := { body := "hello", credit := 2 }
    let config : Config := { flowControl := { explicit := true } }
    ∃ engine, Engine.start config true {} = .ok engine ∧ o.errorCode = none ∧ 0 < o.credit ∧
      (∀ n r, Reaches o n (begin engine o) r → n ≤ 31 ∧ (r.Waits → r.queue ≠ [])) ∧
      o.run config {} = {
        exit := 0
        lines := ["on_headers(end_stream=false): :status: 200, x-loopback-cluster: base",
          "on_data(end_stream=false): \"he\"", "on_data(end_stream=false): \"ll\"",
          "on_data(end_stream=false): \"o\"", "on_trailers: x-loopback-trailer: done",
          "on_complete"] } := by
  intro o config
  have hstarts : (Engine.start config true {}).toOption.isSome = true := by decide
  obtain ⟨engine, hstart⟩ : ∃ engine, Engine.start config true {} = .ok engine := by
    cases hs : Engine.start config true {} with
    | ok engine => exact ⟨engine, rfl⟩
    | error e =>
      rw [hs] at hstarts
      cases hstarts
  have hlength : 3 * (Text.Utf8.encode o.body).length + 16 = 31 := by decide
  have hshown : (echoed o config {}).map Event.render =
      ["on_headers(end_stream=false): :status: 200, x-loopback-cluster: base",
        "on_data(end_stream=false): \"he\"", "on_data(end_stream=false): \"ll\"",
        "on_data(end_stream=false): \"o\"", "on_trailers: x-loopback-trailer: done",
        "on_complete"] := by decide +kernel
  obtain ⟨hraces, hrun⟩ := outcome_independent_of_timing o config {} engine hstart rfl
    fun _ => by decide
  refine ⟨engine, hstart, rfl, by decide, fun n r hr => ?_, hrun.trans (by rw [hshown])⟩
  obtain ⟨hmoves, hbusy, -⟩ := hraces n r hr
  exact ⟨hlength ▸ hmoves, hbusy⟩

end Race

end Cli
end HttpExchange
