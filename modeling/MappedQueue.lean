import MappedQueue.Client.Traffic
import MappedQueue.Main
import MappedQueue.Survey
import MappedQueue.Proofs.Announcements
import MappedQueue.Proofs.Attaching
import MappedQueue.Proofs.Containment
import MappedQueue.Proofs.Exclusion
import MappedQueue.Proofs.Integrity
import MappedQueue.Proofs.Interruptions
import MappedQueue.Proofs.Moves
import MappedQueue.Proofs.Notifications
import MappedQueue.Proofs.Paths
import MappedQueue.Proofs.Schedules
import MappedQueue.Proofs.Sessions
import MappedQueue.Proofs.Sleepers
import MappedQueue.Proofs.Timeouts
import MappedQueue.Proofs.Transfers
import MappedQueue.Proofs.Unharmed
import MappedQueue.Proofs.WaitingCount
import MappedQueue.Proofs.Wakeups
import MappedQueue.Proofs.Directories
import MappedQueue.Proofs.Places
import MappedQueue.Proofs.Plans
import MappedQueue.Proofs.Machines
import MappedQueue.Proofs.Realms
import MappedQueue.Proofs.Incarnations
import MappedQueue.Proofs.Openings
import MappedQueue.Proofs.Aftermaths
import MappedQueue.Proofs.QueuePlaces
import MappedQueue.Proofs.Contests
import MappedQueue.Proofs.Abandoned
import MappedQueue.Proofs.Tallies
import MappedQueue.Proofs.Publication
import MappedQueue.Proofs.Deaths
import MappedQueue.Proofs.Tiling
import MappedQueue.Proofs.Coverage
import MappedQueue.Proofs.Solo
import MappedQueue.Proofs.Rounds
import MappedQueue.Proofs.Spared
import MappedQueue.Proofs.Remains
import MappedQueue.Proofs.Farewells
import MappedQueue.Proofs.Closings
import MappedQueue.Proofs.ObjectNames
import MappedQueue.Proofs.StorePaths
import MappedQueue.Proofs.Emptying
import MappedQueue.Proofs.Waits
import MappedQueue.Proofs.Receipts
import MappedQueue.Proofs.Insertion
