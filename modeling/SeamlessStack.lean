import SeamlessStack.ThreadPool.Wait
import SeamlessStack.ThreadPool.Destroy
import SeamlessStack.Locks.Exclusion
import SeamlessStack.Jobs.Outcome
import SeamlessStack.Metadata.RoundTrip
import SeamlessStack.Policy.Lookup
import SeamlessStack.Sfsd.Extents
import SeamlessStack.Sfsd.InodeLock
import SeamlessStack.Serdes.Delivery
import SeamlessStack.Serdes.Framing
import SeamlessStack.Jobs.Cleanup
import SeamlessStack.Sfsd.ChunkDomain
import SeamlessStack.Policy.Submit
import SeamlessStack.Policy.Plugins
import SeamlessStack.Sfsd.CodeMatrix
import SeamlessStack.Slab.Destroy
import SeamlessStack.Slab.Sizing
import SeamlessStack.Slab.Walk
import SeamlessStack.DataCache.MapLaw
import SeamlessStack.Entry.LockBalance
import SeamlessStack.Sfsd.FileNames
import SeamlessStack.ThreadPool.Active
import SeamlessStack.Entry.ReadStatus
import SeamlessStack.Plugins.Compression
import SeamlessStack.Sfsd.EsureCode
import SeamlessStack.Sfsd.Policies
import SeamlessStack.DataCache.Demote
import SeamlessStack.DataCache.SsdEntries
import SeamlessStack.Jobs.Retry
import SeamlessStack.Policy.Listing
import SeamlessStack.Policy.Loading
import SeamlessStack.Sfs.FreeInode
import SeamlessStack.Sfs.RemoveXattr
import SeamlessStack.Cli.Cursor
import SeamlessStack.Sfs.Rep
import SeamlessStack.Sfs.SfsdPool
import SeamlessStack.ThreadPool.AllPools
import SeamlessStack.Jobs.Trees
import SeamlessStack.Cli.Storages
import SeamlessStack.Cli.Relay
import SeamlessStack.Sfs.InodeNumbers
import SeamlessStack.Sfsd.Workers
import SeamlessStack.Sfsd.Store
import SeamlessStack.Exchange.Undisturbed
