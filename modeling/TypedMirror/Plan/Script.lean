import TypedMirror.Plan.Basic

/-!
# Plans as scripts

A plan as a script for a command-line client.  A semicolon ends each statement; the bodies of
triggers hold semicolons of their own, so the client is told to look for another mark around them.
-/

namespace TypedMirror

def line (parts : List Text) : Text := parts.flatten ++ ['\n']

def MirrorPlan.script (p : MirrorPlan Text) : Text :=
  line ["-- mirror ".toList, p.mirror] ++ p.statements.flatMap (fun s => line [s, [';']]) ++ ['\n']

def TriggerPlan.script (p : TriggerPlan Text) : Text :=
  line ["-- trigger ".toList, p.name] ++ line [p.drop, [';']] ++ "DELIMITER //\n".toList
    ++ line [p.create, " //".toList] ++ "DELIMITER ;\n\n".toList

/-- The whole plan as a script. -/
def Plan.script (p : Plan Text) : Text :=
  p.mirrors.flatMap MirrorPlan.script ++ p.triggers.flatMap TriggerPlan.script

end TypedMirror
