/-!
# Types as written

The type of a field, parameter or constant before any name in it is resolved.
-/

namespace WireSchema

/-- The qualifiers of a handle. -/
inductive HandleSort where
  | dataPipeConsumer | dataPipeProducer | messagePipe | sharedBuffer
  deriving DecidableEq, Repr

namespace HandleSort

def text : HandleSort → String
  | dataPipeConsumer => "data_pipe_consumer"
  | dataPipeProducer => "data_pipe_producer"
  | messagePipe => "message_pipe"
  | sharedBuffer => "shared_buffer"

def ofText? (name : String) : Option HandleSort :=
  [dataPipeConsumer, dataPipeProducer, messagePipe, sharedBuffer].find? (·.text = name)

end HandleSort

/-- A written type: a primitive or a dotted name, a handle, an array `T[]`, or a request `T&` for an
interface. -/
inductive TypeExpr where
  | named (name : String)
  | handle (sort : Option HandleSort)
  | array (element : TypeExpr)
  | request (inner : TypeExpr)
  deriving DecidableEq, Repr

/-- The shortest way to write a type. -/
def TypeExpr.text : TypeExpr → String
  | named name => name
  | handle none => "handle"
  | handle (some sort) => "handle<" ++ sort.text ++ ">"
  | array element => element.text ++ "[]"
  | request inner => inner.text ++ "&"

end WireSchema
