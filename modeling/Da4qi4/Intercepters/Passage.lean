import Da4qi4.Intercepters.SessionRedis

/-! A request on its way through a chain of sessions and files. Code runs to its
end before the next event; a call of `Pass` or `Stop` runs the next invocation
inside, so what is left of the caller waits behind it. An exception ends all code
that runs. The handler answers once, at once or later, and leaves the data of the
files alone. -/
namespace Da4qi4
namespace Intercepter
open Redis (RedisValue)

/-- An element of the chain. -/
inductive Member where
  | sessionOnRedis (options : SessionOptions)
  | staticFile (s : StaticFile)

/-- `none` is an exception. -/
def Member.invoke (env : Setting) (fresh : Fresh) (on : On) (data : ContextData)
    (response : Response) : Member → Option Effect
  | .sessionOnRedis options => SessionOnRedis.invoke env options fresh on data response
  | .staticFile s => some (s.invoke env on data response)

/-- Code that is still to run: an invocation, or what an invocation has left to do.
Invocations are known by their number. -/
inductive Work where
  | run (number : Nat)
  | act (number : Nat) (act : Act)

/-- The reply to a command goes to the invocation that has sent it. -/
structure Asked where
  number : Nat
  options : SessionOptions
  command : Command

/-- The last three fields only record what happened: the invocations, the numbers
of those that called `Pass` or `Stop`, and what was written. -/
structure Passage where
  context : ContextIMP
  data : ContextData := {}
  response : Response := .constructed
  works : List Work
  commands : List Asked := []
  handling : List Nat := []
  invoked : List Invocation
  answered : List Nat := []
  written : List Response := []

/-- The session that an element sends commands for. -/
def Member.options : Member → SessionOptions
  | .sessionOnRedis options => options
  | .staticFile _ => {}

namespace Passage

def start (length : Nat) : Passage where
  context := (ContextIMP.start length).1
  works := [.run 0]
  invoked := [(ContextIMP.start length).2]

def take (s : Passage) (number : Nat) (options : SessionOptions) (effect : Effect) : Passage :=
  { s with
    data := effect.data
    response := effect.response
    works := effect.acts.map (Work.act number) ++ s.works
    commands := s.commands ++
      (effect.command.map fun command => ⟨number, options, command⟩).toList }

/-- `Pass` or `Stop`. -/
def answer (s : Passage) (number : Nat) (result : Result) : Option Passage :=
  (s.context.next result).map fun moved =>
    { s with
      context := moved.1
      works := .run s.invoked.length :: s.works
      invoked := s.invoked ++ [moved.2]
      answered := s.answered ++ [number] }

def run (env : Setting) (chain : List Member) (fresh : Fresh) (s : Passage) (number : Nat) :
    Invocation → Option Passage
  | .intercepter index on =>
    chain[index]?.map fun member =>
      match member.invoke env fresh on s.data s.response with
      | some effect => s.take number member.options effect
      | none => { s with works := [] }
  | .handle => some { s with handling := s.handling ++ [number] }
  | .finish => some { s with written := s.written ++ [s.response] }

def reply (env : Setting) (fresh : Fresh) (s : Passage) (asked : Asked) (value : RedisValue) :
    Passage :=
  s.take asked.number asked.options
    (match asked.command with
    | .get _ => SessionOnRedis.onGet env asked.options fresh s.data s.response value
    | .setex _ _ _ => SessionOnRedis.onSetex env s.data s.response value)

/-- A step of the code that runs, a reply, or the answer of the handler. -/
inductive Event where
  | work (fresh : Fresh)
  | replied (index : Nat) (value : RedisValue) (fresh : Fresh)
  | handled (session : Json) (response : Response) (result : Result)

def step (env : Setting) (chain : List Member) (s : Passage) : Event → Option Passage
  | .work fresh =>
    match s.works with
    | [] => none
    | .run number :: rest =>
      s.invoked[number]?.bind fun invocation =>
        run env chain fresh { s with works := rest } number invocation
    | .act number (.answer result) :: rest => { s with works := rest }.answer number result
    | .act _ (.save session) :: rest =>
      some { s with works := rest, data := { s.data with session := session } }
  | .replied index value fresh =>
    if s.works.isEmpty then
      s.commands[index]?.map fun asked =>
        { s with commands := s.commands.eraseIdx index }.reply env fresh asked value
    else none
  | .handled session response result =>
    match s.handling with
    | [] => none
    | number :: rest =>
      some { s with
        data := { s.data with session := session }
        response := response
        works := .act number (.answer result) :: s.works
        handling := rest }

/-- Work that leads to an answer of an invocation. -/
def Work.answers (number : Nat) : Work → Bool
  | .run other => other = number
  | .act other (.answer _) => other = number
  | .act _ (.save _) => false

/-- The answers that an invocation has given or is going to give. -/
def answers (s : Passage) (number : Nat) : Nat :=
  s.answered.count number + s.works.countP (Work.answers number) +
    s.commands.countP (fun asked => asked.number = number) + s.handling.count number

/-- Nothing is left to wait for. -/
def Quiet (s : Passage) : Prop := s.works = [] ∧ s.commands = [] ∧ s.handling = []

/-- Every invocation answers once; the end comes at most once, and when nothing is
left to wait for it has come and the response is written once. -/
structure ExactlyOnce (s : Passage) : Prop where
  once : ∀ number < s.invoked.length, s.invoked[number]? ≠ some .finish → s.answers number = 1
  finished : s.invoked.count .finish ≤ 1 ∧ s.written.length ≤ 1
  complete : s.Quiet → s.invoked.count .finish = 1 ∧ s.written.length = 1

/-- The cookie of a session can be read, and the session can be written as text if
there is one. -/
def Storable (env : Setting) (session : Json) : Prop :=
  session.isEmpty = false → ∃ cookie, getSessionCookie session = some cookie ∧
    (cookie.isEmpty = false → (env.dump session).isSome)

/-- The invocation of an element leads to one answer. -/
def Answers (env : Setting) (on : On) (data : ContextData) : Member → Prop
  | .sessionOnRedis options =>
    SessionOnRedis.Concerns env options → on ≠ .request → Storable env data.session
  | .staticFile _ =>
    on ≠ .request → ∀ status, data.file = some status → status.found = true → status.file ≠ []

/-- So does a reply: the text of a session can be read, and a session was stored. -/
def Replies (env : Setting) (value : RedisValue) : Command → Prop
  | .get _ => value.isError = true ∨ value.text = [] ∨ (env.parse value.text).isSome
  | .setex _ _ _ => value.isError = false

def Meets (env : Setting) (chain : List Member) (s : Passage) (e : Event) (_ : Passage) : Prop :=
  match e with
  | .work _ =>
    ∀ number rest index on member, s.works = .run number :: rest →
      s.invoked[number]? = some (.intercepter index on) → chain[index]? = some member →
        Answers env on s.data member
  | .replied index value _ =>
    ∀ asked, s.commands[index]? = some asked → Replies env value asked.command
  | .handled _ _ _ => True

/-- One answer, or one command. -/
def Single (effect : Effect) : Prop :=
  (∃ result, effect.command = none ∧ effect.acts = [.answer result]) ∨
    ∃ command, effect.command = some command ∧ effect.acts = []

/-- The answers and the commands of an effect. -/
def weight (effect : Effect) : Nat :=
  (effect.acts.map (Work.act 0)).countP (Work.answers 0) + effect.command.toList.length

/-- What an invocation or a reply leads to is one answer exactly if a condition is
met. -/
def Decides (condition : Prop) (effect : Option Effect) : Prop :=
  (condition ∧ ∃ e, effect = some e ∧ Single e) ∨
    (¬condition ∧ ∀ e, effect = some e → weight e ≠ 1)

theorem decides_pass {condition : Prop} (met : condition) (data : ContextData)
    (response : Response) (result : Result) :
    Decides condition (some { data := data, response := response, acts := [.answer result] }) :=
  .inl ⟨met, _, rfl, .inl ⟨result, rfl, rfl⟩⟩

theorem decides_none {condition : Prop} (broken : ¬condition) : Decides condition none :=
  .inr ⟨broken, fun _ none => nomatch none⟩

theorem decides_onRequest {condition : Prop} (met : condition) (env : Setting)
    (options : SessionOptions) (fresh : Fresh) (data : ContextData) (response : Response) :
    Decides condition (some (SessionOnRedis.onRequest env options fresh data response)) := by
  simp only [SessionOnRedis.onRequest]
  split
  · exact decides_pass met _ _ _
  · exact .inl ⟨met, _, rfl, .inr ⟨_, rfl, rfl⟩⟩

theorem decides_onResponse (env : Setting) (data : ContextData) (response : Response) :
    Decides (Storable env data.session) (SessionOnRedis.onResponse env data response) := by
  rw [SessionOnRedis.onResponse]
  cases empty : data.session.isEmpty with
  | true =>
    refine decides_pass (fun nonempty => ?_) data response .pass
    rw [empty] at nonempty
    cases nonempty
  | false =>
    simp only [Bool.false_eq_true, if_false]
    cases found : getSessionCookie data.session with
    | none =>
      apply decides_none
      intro storable
      obtain ⟨cookie, read, -⟩ := storable empty
      rw [found] at read
      cases read
    | some cookie =>
      rw [Option.bind_some]
      cases unnamed : cookie.isEmpty with
      | true =>
        refine decides_pass (fun _ => ⟨cookie, found, fun named => ?_⟩) data response .pass
        rw [unnamed] at named
        cases named
      | false =>
        simp only [Bool.false_eq_true, if_false]
        cases dumped : env.dump data.session with
        | none =>
          apply decides_none
          intro storable
          obtain ⟨other, read, written⟩ := storable empty
          rw [found] at read
          cases read
          have some := written unnamed
          rw [dumped] at some
          cases some
        | some value =>
          refine .inl ⟨fun _ => ⟨cookie, found, fun _ => ?_⟩, _, rfl, .inr ⟨_, rfl, rfl⟩⟩
          rw [dumped]
          rfl

theorem decides_staticFile (env : Setting) (s : StaticFile) (on : On) (data : ContextData)
    (response : Response) :
    Decides (Answers env on data (.staticFile s)) (some (s.invoke env on data response)) := by
  rw [StaticFile.invoke]
  split
  · rename_i request
    have met : Answers env on data (.staticFile s) := fun other => absurd request other
    split
    · exact decides_pass met _ _ _
    · exact decides_pass met _ _ _
  · rename_i other
    have passes := StaticFile.onResponse_passes env.fs s data.file response
    have condition : Answers env on data (.staticFile s) ↔
        (s.onResponse env.fs data.file response).result = some .pass :=
      (forall_prop_of_true other).trans passes.symm
    by_cases met : Answers env on data (.staticFile s)
    · simp only [condition.mp met]
      exact decides_pass met _ _ _
    · refine .inr ⟨met, ?_⟩
      rintro e ⟨⟩
      have silent := StaticFile.onResponse_silent fun pass => met (condition.mpr pass)
      simp [weight, silent]

/-- An element leads to one answer exactly if its condition is met. -/
theorem decides_invoke (env : Setting) (fresh : Fresh) (on : On) (data : ContextData)
    (response : Response) (member : Member) :
    Decides (Answers env on data member) (member.invoke env fresh on data response) := by
  cases member with
  | staticFile s => exact decides_staticFile env s on data response
  | sessionOnRedis options =>
    rw [Member.invoke, SessionOnRedis.invoke]
    split
    · rename_i concerns
      split
      · rename_i request
        exact decides_onRequest
          (fun _ other => absurd request other) env options fresh data response
      · rename_i other
        have same : Answers env on data (.sessionOnRedis options) ↔ Storable env data.session :=
          ⟨fun answers => answers concerns other, fun storable _ _ => storable⟩
        rw [Decides, same]
        exact decides_onResponse env data response
    · rename_i apart
      exact decides_pass (fun concerns => absurd concerns apart) data response .pass

/-- So does a reply. -/
theorem decides_reply (env : Setting) (fresh : Fresh) (s : Passage) (asked : Asked)
    (value : RedisValue) :
    Decides (Replies env value asked.command) (some
      (match asked.command with
      | .get _ => SessionOnRedis.onGet env asked.options fresh s.data s.response value
      | .setex _ _ _ => SessionOnRedis.onSetex env s.data s.response value)) := by
  cases command : asked.command with
  | get sessionId =>
    simp only [SessionOnRedis.onGet]
    split
    · rename_i error
      exact decides_pass (.inl error) _ _ _
    · rename_i noError
      split
      · rename_i session parsed
        refine decides_pass (.inr ?_) _ _ _
        split at parsed
        · exact .inr (Option.isSome_iff_exists.mpr ⟨session, parsed⟩)
        · rename_i empty
          exact .inl (not_not.mp empty)
      · rename_i unparsed
        refine .inr ⟨?_, ?_⟩
        · rintro (error | empty | parsed)
          · exact noError error
          · rw [if_neg (not_not.mpr empty)] at unparsed
            cases unparsed
          · split at unparsed
            · rw [unparsed] at parsed
              cases parsed
            · cases unparsed
        · rintro e ⟨⟩
          exact Nat.succ_ne_self 1
  | setex sessionId timeout text =>
    simp only [SessionOnRedis.onSetex]
    split
    · rename_i error
      refine .inr ⟨?_, ?_⟩
      · rw [Replies, error]
        intro same
        cases same
      · rintro e ⟨⟩
        exact Nat.succ_ne_self 1
    · rename_i stored
      exact decides_pass (Bool.eq_false_iff.mpr stored) _ _ _

/-- All invocations but the last have answered; the last is to run, to answer, or
waits for a reply or the handler, or it is the end and has run. The number bounds
the events that are left. -/
inductive Token (length : Nat) : Nat → Passage → Prop where
  | running (proper : .finish ∉ before) (moved : ContextIMP.Moved length (position, invocation))
      (data : ContextData) (response : Response) :
      Token length (3 * ContextIMP.remaining length invocation + 1)
        ⟨position, data, response, [.run before.length], [], [], before ++ [invocation],
          List.range before.length, []⟩
  | answering (proper : .finish ∉ before) (awaits : ContextIMP.Awaits length position invocation)
      (data : ContextData) (response : Response) (result : Result) :
      Token length (3 * ContextIMP.remaining length invocation - 1)
        ⟨position, data, response, [.act before.length (.answer result)], [], [],
          before ++ [invocation], List.range before.length, []⟩
  | asking (proper : .finish ∉ before) (awaits : ContextIMP.Awaits length position invocation)
      (data : ContextData) (response : Response) (options : SessionOptions) (command : Command) :
      Token length (3 * ContextIMP.remaining length invocation)
        ⟨position, data, response, [], [⟨before.length, options, command⟩], [],
          before ++ [invocation], List.range before.length, []⟩
  | handling (proper : .finish ∉ before) (awaits : ContextIMP.Awaits length position invocation)
      (data : ContextData) (response : Response) :
      Token length (3 * ContextIMP.remaining length invocation)
        ⟨position, data, response, [], [], [before.length], before ++ [invocation],
          List.range before.length, []⟩
  | finished (proper : .finish ∉ before) (position : ContextIMP) (data : ContextData)
      (response written : Response) :
      Token length 0
        ⟨position, data, response, [], [], [], before ++ [.finish], List.range before.length,
          [written]⟩

theorem awaits_ne_finish (awaits : ContextIMP.Awaits length position invocation) :
    invocation ≠ .finish := by
  cases awaits with
  | request bound => exact fun same => nomatch same
  | handle => exact fun same => nomatch same
  | response bound => exact fun same => nomatch same

theorem remaining_pos (awaits : ContextIMP.Awaits length position invocation) :
    0 < ContextIMP.remaining length invocation := by
  cases awaits with
  | @request index bound =>
    rw [ContextIMP.remaining]
    omega
  | handle => exact Nat.succ_pos length
  | response bound => exact Nat.succ_pos _

/-- What is owed by the last invocation makes up the answers of all. -/
theorem exactlyOnce_of_last {before : List Invocation} {s : Passage}
    (proper : .finish ∉ before) (invoked : s.invoked = before ++ [invocation])
    (answered : s.answered = List.range before.length)
    (owed : ∀ number, s.works.countP (Work.answers number) +
      s.commands.countP (fun asked => asked.number = number) + s.handling.count number =
        if number = before.length ∧ (invocation ≠ .finish ∨ s.works ≠ []) then 1 else 0)
    (written : s.written.length ≤ 1)
    (complete : s.Quiet → invocation = .finish ∧ s.written.length = 1) : s.ExactlyOnce := by
  have ends : s.invoked.count .finish = if invocation = .finish then 1 else 0 := by
    rw [invoked, List.count_append, List.count_eq_zero_of_not_mem proper, Nat.zero_add,
      List.count_singleton]
    simp only [beq_iff_eq]
  constructor
  · intro number bound going
    have due := owed number
    have counted : s.answered.count number = if number < before.length then 1 else 0 := by
      rw [answered, List.count_range]
    rw [answers]
    rw [invoked, List.length_append, List.length_singleton] at bound
    by_cases last : number = before.length
    · subst last
      have open_ : invocation ≠ .finish := by
        rintro rfl
        rw [invoked, List.getElem?_concat_length] at going
        exact going rfl
      rw [if_pos ⟨rfl, .inl open_⟩] at due
      rw [if_neg (Nat.lt_irrefl _)] at counted
      omega
    · rw [if_neg fun both => last both.1] at due
      rw [if_pos (by omega)] at counted
      omega
  · refine ⟨?_, written⟩
    rw [ends]
    split
    · exact Nat.le_refl 1
    · exact Nat.zero_le 1
  · intro quiet
    obtain ⟨finished, once⟩ := complete quiet
    rw [ends, if_pos finished]
    exact ⟨rfl, once⟩

theorem exactlyOnce_of_token {s : Passage} (token : Token length left s) : s.ExactlyOnce := by
  cases token with
  | running proper moved data response =>
    refine exactlyOnce_of_last proper rfl rfl (fun number => ?_) (Nat.zero_le 1) ?_
    · simp [Work.answers, eq_comm]
    · intro quiet
      cases quiet.1
  | answering proper awaits data response result =>
    refine exactlyOnce_of_last proper rfl rfl (fun number => ?_) (Nat.zero_le 1) ?_
    · simp [Work.answers, eq_comm]
    · intro quiet
      cases quiet.1
  | asking proper awaits data response options command =>
    refine exactlyOnce_of_last proper rfl rfl (fun number => ?_) (Nat.zero_le 1) ?_
    · simp [awaits_ne_finish awaits, List.countP_cons, eq_comm]
    · intro quiet
      cases quiet.2.1
  | handling proper awaits data response =>
    refine exactlyOnce_of_last proper rfl rfl (fun number => ?_) (Nat.zero_le 1) ?_
    · simp [awaits_ne_finish awaits, List.count_singleton, @eq_comm _ number]
    · intro quiet
      cases quiet.2.2
  | finished proper position data response written =>
    refine exactlyOnce_of_last proper rfl rfl (fun number => ?_) (Nat.le_refl 1) ?_
    · simp
    · intro _
      exact ⟨rfl, rfl⟩

/-- The last invocation has run and nothing is left of it. -/
def resting (position : ContextIMP) (data : ContextData) (response : Response)
    (before : List Invocation) (invocation : Invocation) : Passage :=
  ⟨position, data, response, [], [], [], before ++ [invocation], List.range before.length, []⟩

variable {position : ContextIMP} {data : ContextData} {response : Response}
  {before : List Invocation} {invocation : Invocation} {effect : Effect}

theorem answers_take (options : SessionOptions) :
    ((resting position data response before invocation).take before.length options effect).answers
      before.length = weight effect := by
  have acts : (effect.acts.map (Work.act before.length)).countP (Work.answers before.length) =
      (effect.acts.map (Work.act 0)).countP (Work.answers 0) := by
    rw [List.countP_map, List.countP_map]
    congr 1
    funext act
    cases act with
    | answer result => simp [Work.answers]
    | save session => rfl
  have sent : (effect.command.map fun command => Asked.mk before.length options command).toList.countP
      (fun asked => asked.number = before.length) = effect.command.toList.length := by
    cases effect.command with
    | none => rfl
    | some command => simp
  simp [answers, take, resting, weight, acts, sent]

/-- An effect that is not one answer is not what is owed. -/
theorem not_exactlyOnce_take (options : SessionOptions) (wrong : weight effect ≠ 1)
    (open_ : invocation ≠ .finish) :
    ¬((resting position data response before invocation).take before.length options
      effect).ExactlyOnce := by
  intro exactly
  have last : ((resting position data response before invocation).take before.length options
      effect).invoked[before.length]? ≠ some .finish := by
    change (before ++ [invocation])[before.length]? ≠ some .finish
    rw [List.getElem?_concat_length]
    intro same
    exact open_ (Option.some.inj same)
  have one := exactly.once before.length (by simp [take, resting]) last
  rw [answers_take] at one
  exact wrong one

theorem token_take (data : ContextData) (response : Response) (proper : .finish ∉ before)
    (awaits : ContextIMP.Awaits length position invocation) (options : SessionOptions)
    (single : Single effect) :
    ∃ left, Token length left ((resting position data response before invocation).take
        before.length options effect) ∧
      left ≤ 3 * ContextIMP.remaining length invocation ∧
        (effect.command = none → left < 3 * ContextIMP.remaining length invocation) := by
  have positive := remaining_pos awaits
  rcases single with ⟨result, none, acts⟩ | ⟨command, sent, acts⟩
  · refine ⟨_, ?_, Nat.sub_le _ 1, fun _ => by omega⟩
    have token := Token.answering proper awaits effect.data effect.response result
    simp only [take, resting, none, acts]
    exact token
  · refine ⟨_, ?_, Nat.le_refl _, fun none => ?_⟩
    · have token := Token.asking proper awaits effect.data effect.response options command
      simp only [take, resting, sent, acts]
      exact token
    · rw [sent] at none
      cases none

/-- A step that meets its condition passes the token on; another one leaves an
invocation with more or less than one answer. -/
def Passes (length left : Nat) (condition : Prop) (t : Passage) : Prop :=
  (condition → ∃ fewer < left, Token length fewer t) ∧ (t.ExactlyOnce → condition)

theorem passes_token {condition : Prop} {fewer : Nat} (met : condition) (less : fewer < left)
    (token : Token length fewer t) : Passes length left condition t :=
  ⟨fun _ => ⟨fewer, less, token⟩, fun _ => met⟩

theorem passes_member {env : Setting} {chain : List Member} {fresh : Fresh} {t : Passage}
    (proper : .finish ∉ before)
    (awaits : ContextIMP.Awaits chain.length position (.intercepter index on))
    (ran : run env chain fresh (resting position data response before (.intercepter index on))
      before.length (.intercepter index on) = some t) :
    Passes chain.length (3 * ContextIMP.remaining chain.length (.intercepter index on) + 1)
      (∀ member, chain[index]? = some member → Answers env on data member) t := by
  obtain ⟨member, found, rfl⟩ := Option.map_eq_some_iff.mp ran
  have condition : (∀ other, chain[index]? = some other → Answers env on data other) ↔
      Answers env on data member := by
    rw [found]
    exact ⟨fun all => all member rfl, fun met other same => by cases same; exact met⟩
  rw [Passes, condition]
  have invoked : member.invoke env fresh on
      (resting position data response before (.intercepter index on)).data
      (resting position data response before (.intercepter index on)).response =
        member.invoke env fresh on data response := rfl
  rw [invoked]
  rcases decides_invoke env fresh on data response member with
    ⟨met, effect, called, single⟩ | ⟨broken, wrong⟩
  · obtain ⟨left, token, bound, -⟩ := token_take data response proper awaits
      member.options single
    rw [called]
    exact passes_token met (Nat.lt_succ_of_le bound) token
  · refine ⟨fun met => absurd met broken, fun exactly => ?_⟩
    cases called : member.invoke env fresh on data response with
    | none =>
      rw [called] at exactly
      have last : (before ++ [Invocation.intercepter index on])[before.length]? ≠ some .finish := by
        rw [List.getElem?_concat_length]
        intro same
        cases same
      have one := exactly.once before.length (by simp [resting]) last
      simp [answers, resting] at one
    | some effect =>
      rw [called] at exactly
      exact absurd exactly (not_exactlyOnce_take member.options (wrong effect called)
        fun same => nomatch same)

theorem passes_run {env : Setting} {chain : List Member} {fresh : Fresh} {t : Passage}
    (proper : .finish ∉ before) (moved : ContextIMP.Moved chain.length (position, invocation))
    (ran : run env chain fresh (resting position data response before invocation) before.length
      invocation = some t) :
    Passes chain.length (3 * ContextIMP.remaining chain.length invocation + 1)
      (∀ index on member, invocation = .intercepter index on → chain[index]? = some member →
        Answers env on data member) t := by
  have unconditional (handled : ∀ index on, invocation ≠ .intercepter index on) :
      ∀ index on member, invocation = .intercepter index on → chain[index]? = some member →
        Answers env on data member :=
    fun index on _ same _ => absurd same (handled index on)
  rcases moved with rfl | awaits
  · cases ran
    exact passes_token (unconditional fun _ _ same => nomatch same) (Nat.succ_pos _)
      (.finished proper position data response response)
  · cases invocation with
    | intercepter index on =>
      have passes := passes_member proper awaits ran
      have condition : (∀ other direction member,
          Invocation.intercepter index on = .intercepter other direction →
            chain[other]? = some member → Answers env direction data member) ↔
          ∀ member, chain[index]? = some member → Answers env on data member := by
        constructor
        · intro all member
          exact all index on member rfl
        · rintro all _ _ member ⟨⟩
          exact all member
      rw [Passes, condition]
      exact passes
    | handle =>
      cases ran
      exact passes_token (unconditional fun _ _ same => nomatch same) (Nat.lt_succ_self _)
        (.handling proper awaits data response)
    | finish => cases awaits

theorem passes_answer {condition : Prop} {result : Result} {t : Passage} (met : condition)
    (proper : .finish ∉ before) (awaits : ContextIMP.Awaits length position invocation)
    (called : (resting position data response before invocation).answer before.length result =
      some t) :
    Passes length (3 * ContextIMP.remaining length invocation - 1) condition t := by
  obtain ⟨next, moved, rfl⟩ := Option.map_eq_some_iff.mp called
  obtain ⟨same, reached, kept⟩ := awaits.next result
  have fewer := awaits.remaining_next moved
  obtain rfl : next = same := Option.some.inj (moved.symm.trans reached)
  have further : .finish ∉ before ++ [invocation] := by
    rw [List.mem_append, List.mem_singleton]
    rintro (earlier | last)
    · exact proper earlier
    · exact awaits_ne_finish awaits last.symm
  have token := Token.running further (show ContextIMP.Moved length (next.1, next.2) from kept) data
    response
  rw [List.length_append, List.length_singleton, List.range_succ] at token
  have less : 3 * ContextIMP.remaining length next.2 + 1 <
      3 * ContextIMP.remaining length invocation - 1 := by omega
  apply passes_token met less
  simp only [resting, List.length_append, List.length_singleton]
  exact token

theorem command_reply (env : Setting) (fresh : Fresh) (s : Passage) (asked : Asked)
    (value : RedisValue) :
    (match asked.command with
      | .get _ => SessionOnRedis.onGet env asked.options fresh s.data s.response value
      | .setex _ _ _ => SessionOnRedis.onSetex env s.data s.response value).command = none := by
  cases asked.command with
  | get sessionId =>
    simp only [SessionOnRedis.onGet]
    split
    · rfl
    · split
      · rfl
      · rfl
  | setex sessionId timeout text =>
    simp only [SessionOnRedis.onSetex]
    split
    · rfl
    · rfl

theorem passes_reply {env : Setting} {fresh : Fresh} {value : RedisValue} {options : SessionOptions}
    {command : Command} (proper : .finish ∉ before)
    (awaits : ContextIMP.Awaits length position invocation) :
    Passes length (3 * ContextIMP.remaining length invocation) (Replies env value command)
      ((resting position data response before invocation).reply env fresh
        ⟨before.length, options, command⟩ value) := by
  rcases decides_reply env fresh (resting position data response before invocation)
      ⟨before.length, options, command⟩ value with ⟨met, effect, same, single⟩ | ⟨broken, wrong⟩
  · obtain ⟨left, token, -, fewer⟩ := token_take data response proper awaits
      options single
    have silent := command_reply env fresh (resting position data response before invocation)
      ⟨before.length, options, command⟩ value
    have replied := Option.some.inj same
    rw [replied] at silent
    apply passes_token met (fewer silent)
    rw [reply, replied]
    exact token
  · refine ⟨fun met => absurd met broken, fun exactly => ?_⟩
    exact absurd exactly (not_exactlyOnce_take options (wrong _ rfl) (awaits_ne_finish awaits))

theorem passes_step {env : Setting} {chain : List Member} {s t : Passage}
    (token : Token chain.length left s) (stepped : s.step env chain e = some t) :
    Passes chain.length left (Meets env chain s e t) t := by
  cases token with
  | @running before position invocation proper moved data response =>
    cases e with
    | work fresh =>
      simp only [step, List.getElem?_concat_length, Option.bind_some] at stepped
      have condition : Meets env chain ⟨position, data, response, [.run before.length], [], [],
            before ++ [invocation], List.range before.length, []⟩ (.work fresh) t ↔
          ∀ index on member, invocation = .intercepter index on → chain[index]? = some member →
            Answers env on data member := by
        constructor
        · intro meets index on member same
          apply meets before.length [] index on member rfl
          rw [List.getElem?_concat_length, same]
        · rintro all number rest index on member ⟨⟩ last
          rw [List.getElem?_concat_length] at last
          exact all index on member (Option.some.inj last)
      rw [Passes, condition]
      exact passes_run proper moved stepped
    | replied index value fresh => cases stepped
    | handled session response result => cases stepped
  | @answering before position invocation proper awaits data response result =>
    cases e with
    | work fresh =>
      refine passes_answer ?_ proper awaits stepped
      rintro number rest index on member ⟨⟩
    | replied index value fresh => cases stepped
    | handled session response result => cases stepped
  | @asking before position invocation proper awaits data response options command =>
    cases e with
    | work fresh => cases stepped
    | replied index value fresh =>
      obtain ⟨asked, sent, rfl⟩ := Option.map_eq_some_iff.mp stepped
      cases index with
      | succ index => cases sent
      | zero =>
        cases sent
        have condition : Meets env chain ⟨position, data, response, [],
              [⟨before.length, options, command⟩], [], before ++ [invocation],
              List.range before.length, []⟩ (.replied 0 value fresh)
              ((resting position data response before invocation).reply env fresh
                ⟨before.length, options, command⟩ value) ↔ Replies env value command :=
          ⟨fun meets => meets _ rfl, fun replies asked same => by cases same; exact replies⟩
        constructor
        · intro meets
          exact (passes_reply proper awaits).1 (condition.mp meets)
        · intro exactly
          exact condition.mpr ((passes_reply proper awaits).2 exactly)
    | handled session response result => cases stepped
  | @handling before position invocation proper awaits data response =>
    cases e with
    | work fresh => cases stepped
    | replied index value fresh => cases stepped
    | handled session response result =>
      cases stepped
      have positive := remaining_pos awaits
      exact passes_token trivial (by omega) (.answering proper awaits _ response result)
  | finished proper position data response written =>
    cases e with
    | work fresh => cases stepped
    | replied index value fresh => cases stepped
    | handled session response result => cases stepped

theorem token_start (length : Nat) :
    Token length (3 * ContextIMP.remaining length (ContextIMP.start length).2 + 1) (start length) :=
  Token.running List.not_mem_nil
    (show ContextIMP.Moved length ((ContextIMP.start length).1, (ContextIMP.start length).2) from
      ContextIMP.moved_doIntercepterOnReqDir (Nat.zero_le length)) {} .constructed

theorem events_bounded {env : Setting} {chain : List Member} {events : List Event} {s t : Passage}
    (token : Token chain.length left s)
    (meets : Transition.Steps (step env chain) (Meets env chain) s events)
    (ran : Transition.run (step env chain) s events = some t) : events.length ≤ left := by
  induction events generalizing s left with
  | nil => exact Nat.zero_le left
  | cons e events ih =>
    obtain ⟨u, stepped, rest⟩ := Option.bind_eq_some_iff.mp ran
    obtain ⟨here, further⟩ := meets u stepped
    obtain ⟨fewer, less, passed⟩ := (passes_step token stepped).1 here
    exact (ih passed further rest).trans_lt less

/-- In every run each invocation answers once and the response is written once, when
nothing is left to wait for, exactly if every invocation and every reply meets its
condition; and such a run has an end. -/
theorem exactly_once_iff (env : Setting) (chain : List Member) (events : List Event) :
    (Transition.Throughout (step env chain) ExactlyOnce (start chain.length) events ↔
      Transition.Steps (step env chain) (Meets env chain) (start chain.length) events) ∧
    (Transition.Steps (step env chain) (Meets env chain) (start chain.length) events →
      ∀ s, Transition.run (step env chain) (start chain.length) events = some s →
        events.length ≤ 6 * chain.length + 4) := by
  have token := token_start chain.length
  constructor
  · refine Transition.throughout_iff_steps (I := fun s => ∃ left, Token chain.length left s)
      ?_ ?_ ?_ ⟨_, token⟩
    · rintro s e t ⟨left, token⟩ stepped meets
      obtain ⟨fewer, -, passed⟩ := (passes_step token stepped).1 meets
      exact ⟨fewer, passed⟩
    · rintro s e t ⟨left, token⟩ stepped exactly
      exact (passes_step token stepped).2 exactly
    · rintro s ⟨left, token⟩
      exact exactlyOnce_of_token token
  · intro meets s ran
    have bounded := events_bounded token meets ran
    have fewer := ContextIMP.remaining_doIntercepterOnReqDir (Nat.zero_le chain.length)
    have first : ContextIMP.remaining chain.length (ContextIMP.start chain.length).2 ≤
        2 * chain.length + 1 - 0 := fewer
    omega

/-- A session whose text is `x`, which does not parse. -/
def unparsable : Setting where
  app := .root
  request :=
    { url := { path := [47] }
      cookies := OrderedMap.empty.assign (Bytes.ofAscii "session_id") [49] }
  hasRedis := true
  fs :=
    { hasFilename := fun _ => false
      filename := fun _ => []
      extension := fun _ => []
      isThere := fun _ => some false
      content := fun _ => none
      getMIMEType := fun _ => []
      renderStatus := fun status response => response.replyStatus status }
  parse := fun _ => none
  dump := fun _ => some []

theorem unparsable_answers_twice :
    ¬Transition.Throughout (step unparsable [.sessionOnRedis {}]) ExactlyOnce (start 1)
      [.work ⟨[], []⟩, .replied 0 (.bytes (Bytes.ofAscii "x") false) ⟨[], []⟩] := by
  intro holds
  have exactly := holds.final rfl
  have twice := exactly.once 0 (Nat.succ_pos _) fun same => nomatch same
  cases twice

end Passage
end Intercepter
end Da4qi4
