import Mathlib.Data.List.Basic

namespace Wireops.Protocol

/-- The types of the envelopes that carry a dispatched command. -/
inductive MessageType where
  | deploy | redeploy | teardown | probe | inspect | getStatus | getResources
  | stopContainer | restartContainer | getContainerStats | getContainerLogs | exec
  | discoverProjects | readFile | runJob | killJob | getMetrics
  deriving DecidableEq, Repr

/-- `commandID` names the logical command and is stable across redelivery;
`messageID` names one delivery attempt. -/
structure DeployCommand where
  commandID : String
  messageID : String := ""
  stackID : String
  commitSHA : String := ""
  deriving DecidableEq, Repr

structure TeardownCommand where
  commandID : String
  messageID : String := ""
  stackID : String
  deriving DecidableEq, Repr

structure RunJobCommand where
  commandID : String
  messageID : String := ""
  jobRunID : String
  deriving DecidableEq, Repr

inductive Command where
  | deploy (c : DeployCommand)
  | redeploy (c : DeployCommand)
  | teardown (c : TeardownCommand)
  | runJob (c : RunJobCommand)
  | probe (commandID : String)
  | inspect (commandID : String)
  | getStatus (commandID : String)
  | getResources (commandID : String)
  | containerAction (commandID : String)
  | getContainerStats (commandID : String)
  | getContainerLogs (commandID : String)
  | exec (commandID : String)
  | discoverProjects (commandID : String)
  | readFile (commandID : String)
  | killJob (commandID : String)
  | getMetrics (commandID : String)
  deriving DecidableEq, Repr

namespace Command

def commandID : Command → String
  | deploy c | redeploy c => c.commandID
  | teardown c => c.commandID
  | runJob c => c.commandID
  | probe i | inspect i | getStatus i | getResources i | containerAction i | getContainerStats i
  | getContainerLogs i | exec i | discoverProjects i | readFile i | killJob i | getMetrics i => i

/-- The type switch of `Dispatch`. The start of its id tells a container action,
which has no type when it has neither start. -/
def msgType : Command → Option MessageType
  | deploy _ => some .deploy
  | redeploy _ => some .redeploy
  | teardown _ => some .teardown
  | runJob _ => some .runJob
  | probe _ => some .probe
  | inspect _ => some .inspect
  | getStatus _ => some .getStatus
  | getResources _ => some .getResources
  | containerAction i =>
    if "stop-container-".toList.isPrefixOf i.toList then some .stopContainer
    else if "restart-container-".toList.isPrefixOf i.toList then some .restartContainer
    else none
  | getContainerStats _ => some .getContainerStats
  | getContainerLogs _ => some .getContainerLogs
  | exec _ => some .exec
  | discoverProjects _ => some .discoverProjects
  | readFile _ => some .readFile
  | killJob _ => some .killJob
  | getMetrics _ => some .getMetrics

end Command

def isDurableCommand : MessageType → Bool
  | .deploy | .redeploy | .teardown | .runJob => true
  | _ => false

def withDispatchMessageID (messageID : String) : Command → Command
  | .deploy c => .deploy { c with messageID }
  | .redeploy c => .redeploy { c with messageID }
  | .teardown c => .teardown { c with messageID }
  | .runJob c => .runJob { c with messageID }
  | c => c

@[simp]
theorem withDispatchMessageID_commandID (messageID : String) (c : Command) :
    (withDispatchMessageID messageID c).commandID = c.commandID := by
  cases c <;> rfl

structure Envelope where
  type : MessageType
  payload : Command

structure CommandResult where
  commandID : String
  messageID : String := ""
  output : String := ""
  error : String := ""
  deriving DecidableEq, Repr

end Wireops.Protocol
