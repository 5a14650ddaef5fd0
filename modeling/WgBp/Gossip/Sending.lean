import WgBp.Gossip.Node

/-! `_sendStateToPeer` between its awaits. The send lock is a thread lock: a call that finds
it taken blocks the event loop, and with it the coroutine that would release it. Only a
connection that fails gives the lock back with its exception. -/
namespace WgBp.Gossip

open WgBp.Model

inductive Await where
  | connect
  | drain
  | close
  deriving DecidableEq

inductive SendStep where
  | returns
  | blocks
  | awaits (lock : Bool) (await : Await)
  | ends (lock raises : Bool)
  deriving DecidableEq

def startSend (lock : Bool) : SyncPort → SendStep
  | .port _ => if lock then .blocks else .awaits true .connect
  | _ => .returns

def Await.resume (await : Await) (lock success : Bool) : SendStep :=
  match await, success with
  | .connect, true => .awaits lock .drain
  | .connect, false => .ends false true
  | .drain, true => .awaits lock .close
  | .drain, false => .ends lock true
  | .close, true => .ends false false
  | .close, false => .ends lock true

end WgBp.Gossip
