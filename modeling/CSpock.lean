import CSpock.Library.Cursor
import CSpock.Library.Endian
import CSpock.Library.Septets
import CSpock.Numeric
import CSpock.Heap
import CSpock.Varlong
import CSpock.Library.Refusal
import CSpock.Nbt.Bounds
import CSpock.Nbt.Clone
import CSpock.Nbt.Encode
import CSpock.Nbt.Filter
import CSpock.Nbt.Leaks
import CSpock.Nbt.Write
import CSpock.Nbt.Search
import CSpock.Metadata.Bounds
import CSpock.Metadata.Codec
import CSpock.Metadata.Contract
import CSpock.Metadata.Count
import CSpock.Metadata.RoundTrip
import CSpock.Metadata.Size
import CSpock.Itemtag.Entries
import CSpock.Propagation
import CSpock.Storage
import CSpock.Net.Bbuf
import CSpock.Net.Framing
import CSpock.Net.Lock
import CSpock.Net.Reassembly
import CSpock.Net.Cutting
import CSpock.Net.Fifo
import CSpock.Net.Header
import CSpock.Fibers.Calls
import CSpock.Fibers.Coroutines
import CSpock.Fibers.Lifetime
import CSpock.Fibers.Pool
import CSpock.Fibers.Refinement
import CSpock.Fibers.Sleep
import CSpock.Event.Batch
import CSpock.Event.Concurrent
import CSpock.Event.Handles
import CSpock.Event.Hashed
import CSpock.Event.Waiting
