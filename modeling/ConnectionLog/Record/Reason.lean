/-!
Why a connection was let through or blocked. Reasons are stored as codes; a
code without a meaning is kept as it is.
-/
namespace ConnectionLog

inductive Reason where
  | internetAddress
  | oldConnection
  | programAction
  | appGroup
  | filterMode
  | lanOnly
  | zone
  | rule
  | globalRuleBeforeApps
  | globalRuleAfterApps
  | askLimit
  | unknown (code : Int)
deriving DecidableEq

namespace Reason

def ofCode (code : Int) : Reason :=
  if code = 1 then internetAddress
  else if code = 2 then oldConnection
  else if code = 3 then programAction
  else if code = 4 then appGroup
  else if code = 5 then filterMode
  else if code = 6 then lanOnly
  else if code = 7 then zone
  else if code = 8 then rule
  else if code = 9 then globalRuleBeforeApps
  else if code = 10 then globalRuleAfterApps
  else if code = 11 then askLimit
  else unknown code

def code : Reason → Int
  | internetAddress => 1
  | oldConnection => 2
  | programAction => 3
  | appGroup => 4
  | filterMode => 5
  | lanOnly => 6
  | zone => 7
  | rule => 8
  | globalRuleBeforeApps => 9
  | globalRuleAfterApps => 10
  | askLimit => 11
  | unknown code => code

def text : Reason → String
  | internetAddress => "Internet address"
  | oldConnection => "Old connection"
  | programAction => "Program's action"
  | appGroup => "App. Group"
  | filterMode => "Filter Mode"
  | lanOnly => "LAN only"
  | zone => "Zone"
  | rule => "Rule"
  | globalRuleBeforeApps => "Global Rule before App Rules"
  | globalRuleAfterApps => "Global Rule after App Rules"
  | askLimit => "Limit of Ask to Connect"
  | unknown _ => "Unknown"

theorem code_ofCode (c : Int) : (ofCode c).code = c := by
  fun_cases ofCode c <;> simp_all only [code]

end Reason

end ConnectionLog
