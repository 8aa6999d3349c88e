import WebbitAsyncio.Source.EventLoop

/-!
# The accessors of a request handle

`RequestWrapper.java:5-38` over `RequestWrapper_complete`, `_result` and
`_errorno` (asyncio.c:361-425). A wrapper is nothing but the address it was
constructed with; the accessors read whatever is there now. Reading memory that
is not such a block has no defined result, which is `none`.
-/
namespace WebbitAsyncio.Source.RequestWrapper
open WebbitAsyncio.Source.EventLoop
open WebbitAsyncio.Source.Reqq (Addr)

variable {J : Type}

/-- `data->complete == 1` through the raw pointer. -/
def complete (s : State J) (ptr : Addr) : Option Bool :=
  (s.reqAt ptr).bind fun r => (s.dataAt r.data).map fun d => d.complete

/-- `req->result`, a `ssize_t`, returned as a `jint`. -/
def result (s : State J) (ptr : Addr) : Option (BitVec 32) :=
  (s.reqAt ptr).map fun r => r.result.truncate 32

def errorno (s : State J) (ptr : Addr) : Option (BitVec 32) :=
  (s.reqAt ptr).map fun r => r.errorno

def getResult (s : State J) (ptr : Addr) : Option (BitVec 32) := result s ptr

def getErrorNo (s : State J) (ptr : Addr) : Option (BitVec 32) := errorno s ptr

/-- `complete(ptr) && result(ptr) > -1`; the second read is made only if the first is true. -/
def success (s : State J) (ptr : Addr) : Option Bool :=
  (complete s ptr).bind fun done =>
    if done then (result s ptr).map fun res => decide (-1 < res.toInt) else some false

end WebbitAsyncio.Source.RequestWrapper
