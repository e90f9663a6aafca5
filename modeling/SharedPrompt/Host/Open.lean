import SharedPrompt.Host.Event

/-!
# Opening a host, and running one request on it
-/

namespace SharedPrompt

namespace Host

/-- Takes an engine into use: the two pipelines, the subscription to idle moments, and for a host
that follows the engine's own prompts also that subscription. -/
def establish (h : Host) (follows : Bool) : Except EngineFault Unit × Host :=
  match h.createPipeline .current with
  | (.error f, h) => (.error f, h)
  | (.ok main, h) =>
    match h.createPipeline .current with
    | (.error f, h) => (.error f, h)
    | (.ok line, h) =>
      if h.engine.failures.subscribeIdle then (.error (.subscribe "idle" Engine.injected), h)
      else
        let stack := { h.stack with bottom := ⟨main, 0, false⟩, line := ⟨line, 1, false⟩ }
        let h := { h with stack, subscriptions := h.subscriptions.subscribe 0 }
        if follows && h.engine.failures.subscribeNested then
          (.error (.subscribe "nested-prompt" Engine.injected), h)
        else (.ok (), { h with follows })

/-- Runs a thread until it ends or has to wait. -/
def runThread (h : Host) (id : Nat) : Nat → Host
  | 0 => h
  | fuel + 1 =>
    match h.stepThread id with
    | (h, true) => runThread h id fuel
    | (h, false) => h

/-- Runs a command on a pipeline at once, without a permit. -/
def runDirect (h : Host) (pipeline : Nat) (job : Job) (reply : Nat) (fuel : Nat) : Host :=
  let id := h.nextThread
  (h.spawnThread [.direct pipeline false job reply]).runThread id fuel

/-- What the one who waits for a reply gets in the end; none if nobody waits. -/
def replyResult (h : Host) (reply : Nat) : Option RunResult :=
  match h.replies[reply]? with
  | some (.sent r) => some r
  | some (.open_ _) => some (.error .abandoned)
  | _ => none

end Host

/-- What becomes of a request. -/
inductive Fate where
  | run
  | complete (r : RunResult)
  | drop
  deriving Inhabited

/-- A request made on a fresh pipeline and then run, completed or dropped; `waited` tells whether
somebody waits for the answer. The second part is the sink of its error records. -/
def Host.request (h : Host) (mode : PipelineMode) (command : Command) (options : Options)
    (fired waited : Bool) (fate : Fate) : Option RunResult × Nat × Host :=
  let (pipeline, h) := match h.createPipeline mode with
    | (.ok n, h) => (n, h)
    | (.error _, h) => (0, h)
  let (sink, h) := h.newSink
  let (token, h) := h.newToken
  let h := if fired then h.fireToken token else h
  let (reply, h) := h.newReply h.nextTask
  let h := if waited then h else h.closeReply reply
  let h := match fate with
    | .run => h.runDirect pipeline ⟨command, options, sink, token⟩ reply 200000
    | .complete r => h.sendReply reply r
    | .drop => h
  (h.replyResult reply, sink, h)

end SharedPrompt
