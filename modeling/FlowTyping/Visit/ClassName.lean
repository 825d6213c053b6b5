import FlowTyping.Visit.Basic

/-!
# Class names in expressions
-/

namespace FlowTyping

open Visit

/-- The base of the class that the routine belongs to. -/
def parentClass? (env : Setting) : Visit (Option Name) := do
  return (← selfClass?).bind fun cls => (env.decls.class? cls).bind ClassDecl.base?

/-- The class that an expression names, and whether the class at run time may be a subclass. A
computed class is visited and stays unknown. -/
def resolveClass (env : Setting) (v : Visitor) : ClassRef → Visit (Option (Name × Bool))
  | .named cls => return some (cls, false)
  | .selfClass => do return (← selfClass?).map (·, false)
  | .parent => do return (← parentClass? env).map (·, false)
  | .lateStatic => do
    updateFacts (·.markLateStaticBinding)
    return (← selfClass?).map (·, true)
  | .dynamic e => do
    v.read e
    return none

/-- The class that an expression names, as far as it is known without running code. -/
def staticClass? (env : Setting) : ClassRef → Visit (Option Name)
  | .named cls => return some cls
  | .selfClass => selfClass?
  | .lateStatic => selfClass?
  | .parent => parentClass? env
  | .dynamic _ => return none

end FlowTyping
