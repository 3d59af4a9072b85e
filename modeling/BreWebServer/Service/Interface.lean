/-
  BreWebServer.Service.Interface — what a session asks of `UserService`.

  The operations `Session` calls, over a database state `δ`: each takes the state and its
  arguments and gives its result and the state after it, if it comes back. `Session`'s own
  results hold for any such service.
-/

import BreWebServer.Cpp.Text

namespace BreWebServer.Service

open BreWebServer.Cpp

structure User where
  id : Int
  username : Bytes
  email : Bytes
  createdAt : Bytes
  deriving DecidableEq, Repr

structure UserService (δ : Type) where
  /-- A call that is made now comes back: it does not end the process. -/
  returns : δ → Bool
  register : δ → Bytes → Bytes → Bytes → Bool × δ
  login : δ → Bytes → Bytes → Option User × δ
  getAllUsers : δ → Int → Int → List User × δ
  getUserById : δ → Int → Option User × δ

/-- A JSON value as the assignments of a handler make it. -/
inductive Json where
  | bool (b : Bool)
  | num (n : Int)
  | str (s : Bytes)
  | obj (fields : List (Bytes × Json))
  | arr (items : List Json)

end BreWebServer.Service
