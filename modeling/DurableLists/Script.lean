import DurableLists.Database
import DurableLists.Tx.Request

/-!
# Scripts

What a user does with one transaction: a tree whose nodes are uses of the transaction and whose branches
are chosen by what each use brought, a failure included. A script reaches a transaction through its uses
alone.
-/

set_option autoImplicit false

namespace DurableLists

/-- One use of a transaction. -/
inductive Use where
  | list (bucket : String) (request : Request)
  | pending
  | isWritable
  | isClosed
  | commit
  | rollback
  deriving DecidableEq, Repr

def Use.perform : Use → Attempt Database.Handle Reply
  | .list bucket request => Database.Handle.onTx fun committed => request.perform committed bucket
  | .pending => do return .records (← get).tx.pending
  | .isWritable => do return .flag (← get).tx.isWritable
  | .isClosed => do return .flag (← get).tx.isClosed
  | .commit => do
    Database.Handle.commit
    return .done
  | .rollback => do
    Database.Handle.rollback
    return .done

/-- Uses of a transaction that end in an answer or a failure. -/
inductive Script (α : Type) where
  | done (outcome : Except Error α)
  /-- One use, and how to go on after what it brought. -/
  | use (use : Use) (next : Except Error Reply → Script α)

namespace Script

variable {α β : Type}

/-- Goes on with another script after an answer; a failure ends both. -/
def bind : Script α → (α → Script β) → Script β
  | .done (.ok a), f => f a
  | .done (.error e), _ => .done (.error e)
  | .use u next, f => .use u fun reply => (next reply).bind f

instance : Monad Script where
  pure a := .done (.ok a)
  bind := bind

def fail (e : Error) : Script α := .done (.error e)

def ask (u : Use) : Script Reply := .use u .done

def tryAsk (u : Use) : Script (Except Error Reply) := .use u fun reply => .done (.ok reply)

def run : Script α → Attempt Database.Handle α
  | .done outcome => Attempt.ofExcept outcome
  | .use u next => do
    let reply ← Attempt.outcome u.perform
    (next reply).run

end Script

end DurableLists
