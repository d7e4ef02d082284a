import KconfigLang.Tree.Stmt

/-!
# Splicing

A block with its inclusions replaced by statements, in menus and conditional blocks too. What is not a tree of
a file, a choice without members, is handed to the caller.
-/

namespace KconfigLang.Stmt

variable {m : Type → Type} [Monad m]

mutual

/-- What replaces a statement: `included` gives the statements of an inclusion, and `emptied` those of a
choice without members. -/
def splice (included : Source → m (List Stmt)) (emptied : Choice → m (List Stmt)) :
    Stmt → m (List Stmt)
  | source s => included s
  | menu head body => do
    let body ← spliceAll included emptied body
    return [menu head body]
  | ifBlock condition body span => do
    let body ← spliceAll included emptied body
    return [ifBlock condition body span]
  | choice c => if c.members.isEmpty then emptied c else return [choice c]
  | config c => return [config c]
  | menuconfig c => return [menuconfig c]
  | comment c => return [comment c]

/-- What replaces the statements of a block, from the first to the last. -/
def spliceAll (included : Source → m (List Stmt)) (emptied : Choice → m (List Stmt)) :
    List Stmt → m (List Stmt)
  | [] => return []
  | s :: ss => do
    let first ← splice included emptied s
    let more ← spliceAll included emptied ss
    return first ++ more

end

end KconfigLang.Stmt
