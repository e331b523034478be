import IFramework.Base
import IFramework.Theory.Run
import IFramework.Mailboxes.Basic
import IFramework.Mailboxes.Transition
import IFramework.Mailboxes.Handling
import IFramework.Theory.Fifo
import IFramework.Mailboxes.Flow
import IFramework.Mailboxes.Delivery
import IFramework.Mailboxes.Exclusion
import IFramework.Mailboxes.Order
import IFramework.MessageQueue.SlidingDoor
import IFramework.MessageQueue.Commit
import IFramework.EventSourcing.EventStore
import IFramework.EventSourcing.Repository
import IFramework.Event.EventBus
import IFramework.EventSourcing.UnitOfWork
import IFramework.Theory.Words
import IFramework.EventSourcing.Redelivery
import IFramework.EventSourcing.CommandProcessor
import IFramework.EventSourcing.System
import IFramework.EventSourcing.Stream
import IFramework.EventSourcing.Coherence
import IFramework.EventSourcing.ConsumeMessage
import IFramework.EventSourcing.Failure
import IFramework.Commands.CommandProcessor
import IFramework.Commands.ExactlyOnce
import IFramework.EntityFrameworkCore.AggregateRoot
import IFramework.EntityFrameworkCore.PublishAnyway
import IFramework.Event.AtMostOnce
import IFramework.Event.HandlerSkipped
import IFramework.EventSourcing.HandleEvent
import IFramework.Message.MessageSender
import IFramework.Message.SendOrder
import IFramework.MessageStores.ExecuteInTransaction
import IFramework.MessageStores.Outbox
import IFramework.MessageStores.OutboxRecovery
import IFramework.MessageStores.TransientFaults
import IFramework.Commands.CommandBus
import IFramework.Commands.ReplyDelivery
import IFramework.Commands.ReplyEntries
import IFramework.EventSourcing.Loading
import IFramework.Infrastructure.ConcurrentLimitedSizeDictionary
import IFramework.Infrastructure.GetMethodInfo
import IFramework.Infrastructure.RadixEncoding
import IFramework.Message.BatchSend
import IFramework.MessageQueue.KafkaConsumer
import IFramework.MessageQueue.Retained
import IFramework.EventSourcing.EventSubscriber
import IFramework.EventStoreClient.GetEvents
import IFramework.Message.GetHandlerTypes
import IFramework.Message.MessageTypeProvider
import IFramework.Message.SendAttempts
import IFramework.Repositories.OrderExpression
import IFramework.Specifications.GetExpression
import IFramework.Infrastructure.GenerateNewId
import IFramework.Infrastructure.ObjectIdParsing
import IFramework.Infrastructure.RadixDecoding
import IFramework.EntityFrameworkCore.Reload
import IFramework.EntityFrameworkCore.ReloadEnds
import IFramework.Infrastructure.RevivedLoop
import IFramework.MessageStores.DeleteStatement
import IFramework.MessageStores.MessageStoreDaemon
import IFramework.MessageStores.RebuiltContext
import IFramework.AspNet.LegacyCookie
import IFramework.Infrastructure.ConcurrencyProcessor
import IFramework.Infrastructure.DictionaryContract
import IFramework.Infrastructure.Md5Encrypt
import IFramework.Infrastructure.Suspension
import IFramework.Message.Tags
import IFramework.MessageQueue.KafkaProducer
import IFramework.Repositories.PageFind
import IFramework.Sample.Advance
import IFramework.Sample.Conservation
import IFramework.DependencyInjection.Interceptors
import IFramework.DependencyInjection.RetriedTransactions
import IFramework.EntityFrameworkCore.OptimisticConcurrency
import IFramework.Infrastructure.Caching
import IFramework.MessageQueue.AtLeastOnce
import IFramework.MessageQueue.FlowControl
import IFramework.ZeroMQ.CommandDistributor
import IFramework.ZeroMQ.KeyOrder
import IFramework.MessageQueue.Restart
